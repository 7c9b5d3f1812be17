import Mathlib.Data.Rat.Encodable
import Mathlib.Logic.Equiv.List
import NodeAgent.Dogstatsd.Pipeline

/-!
# Splitting series into batches

`encodeCustomBatches` searches for a long part of the series whose payload fits, as if a longer part
always had a longer payload. Compression does not promise this. What the search needs is less: it
gives a part up only for a shorter one, and ends with a single series if nothing fitted before.

* `searchBatch_none` — nothing fitted only if a single series does not fit
* `encodeCustomBatches_splits` — the payloads hold the series in order, or a series is too large
-/

namespace Dogstatsd

open Infra

section

variable {codec : Codec} {maxBytes : Int} {rest : List TimeSeries} {low stop : Nat}
  {best : Option (Nat × Bytes)}

/-- The payloads hold these parts, one each. No part is empty and no payload is too large. -/
structure Packed (codec : Codec) (maxBytes : Int) (parts : List (List TimeSeries))
    (payloads : List Bytes) : Prop where
  decode : payloads.map codec.unmarshal = parts.map some
  nonempty : ∀ part ∈ parts, part ≠ []
  fits : ∀ payload ∈ payloads, (payload.length : Int) ≤ maxBytes

theorem Packed.nil : Packed codec maxBytes [] [] := ⟨rfl, by simp, by simp⟩

theorem Packed.cons {parts : List (List TimeSeries)} {payloads : List Bytes}
    {part : List TimeSeries} {payload : Bytes} (h : Packed codec maxBytes parts payloads)
    (hpart : codec.marshal part = some payload) (hne : part ≠ [])
    (hfits : (payload.length : Int) ≤ maxBytes) :
    Packed codec maxBytes (part :: parts) (payload :: payloads) := by
  refine ⟨?_, List.forall_mem_cons.mpr ⟨hne, h.nonempty⟩,
    List.forall_mem_cons.mpr ⟨hfits, h.fits⟩⟩
  rw [List.map_cons, List.map_cons, codec.decodes part payload hpart, h.decode]

def TooLarge (codec : Codec) (maxBytes : Int) (part : List TimeSeries) : Prop :=
  ∀ payload, codec.marshal part = some payload → maxBytes < payload.length

/-! ## The search -/

theorem searchBatch_ok (hmarshal : ∀ series, (codec.marshal series).isSome = true) :
    ∃ found, searchBatch codec maxBytes rest low stop best = .ok found := by
  fun_induction searchBatch codec maxBytes rest low stop best with
  | case1 low stop best hlt mid hnone =>
    have hsome := hmarshal (rest.take mid)
    rw [hnone] at hsome
    cases hsome
  | case2 low stop best hlt mid payload hpayload hfits ih => exact ih
  | case3 low stop best hlt mid payload hpayload hlarge ih => exact ih
  | case4 low stop best hge => exact ⟨best, rfl⟩

theorem searchBatch_fits {n : Nat} {payload : Bytes}
    (hbest : ∀ m p, best = some (m, p) → (p.length : Int) ≤ maxBytes)
    (h : searchBatch codec maxBytes rest low stop best = .ok (some (n, payload))) :
    (payload.length : Int) ≤ maxBytes := by
  fun_induction searchBatch codec maxBytes rest low stop best with
  | case1 => cases h
  | case2 low stop best hlt mid p hp hfits ih =>
    refine ih ?_ h
    intro m q hq
    obtain ⟨rfl, rfl⟩ := Prod.mk.inj (Option.some.inj hq)
    exact hfits
  | case3 low stop best hlt mid p hp hlarge ih => exact ih hbest h
  | case4 low stop best hge =>
    cases h
    exact hbest n payload rfl

/-- **The search returns nothing only if a single series is too large**, whatever the sizes of the
payloads are. As long as nothing fitted, `low` stays at 1 and the part just above the range was
tried. -/
theorem searchBatch_none (hlow : 0 < low) (hstop : 0 < stop) (hbest : best = none → low = 1)
    (htried : stop ≤ rest.length → TooLarge codec maxBytes (rest.take stop)) (hrest : rest ≠ [])
    (h : searchBatch codec maxBytes rest low stop best = .ok none) :
    TooLarge codec maxBytes (rest.take 1) := by
  fun_induction searchBatch codec maxBytes rest low stop best with
  | case1 => cases h
  | case2 low stop best hlt mid p hp hfits ih =>
    exact ih (Nat.succ_pos mid) hstop (fun hnone => by cases hnone) htried h
  | case3 low stop best hlt mid p hp hlarge ih =>
    refine ih hlow (by omega) hbest ?_ h
    intro _ payload hpayload
    rw [hp, Option.some.injEq] at hpayload
    rw [← hpayload]
    exact not_le.mp hlarge
  | case4 low stop best hge =>
    cases h
    have hone := hbest rfl
    have hlength := List.length_pos_iff.mpr hrest
    obtain rfl : stop = 1 := by omega
    exact htried hlength

/-! ## The loop -/

theorem take_ne_nil {n : Nat} (hne : rest ≠ []) (hpos : 0 < n) : rest.take n ≠ [] := by
  rw [Ne, List.take_eq_nil_iff, not_or]
  exact ⟨hpos.ne', hne⟩

/-- The series are packed up to one that does not fit on its own. -/
def Refused (codec : Codec) (maxBytes : Int) (series : List TimeSeries) (e : EncodeError) : Prop :=
  ∃ parts payloads x rest payload, Packed codec maxBytes parts payloads ∧
    parts.flatten ++ x :: rest = series ∧ codec.marshal [x] = some payload ∧
    maxBytes < payload.length ∧ e = .tooLarge payload.length maxBytes

theorem Refused.append {part : List TimeSeries} {payload : Bytes} {e : EncodeError}
    (h : Refused codec maxBytes rest e) (hpart : codec.marshal part = some payload)
    (hne : part ≠ []) (hfits : (payload.length : Int) ≤ maxBytes) :
    Refused codec maxBytes (part ++ rest) e := by
  obtain ⟨parts, payloads, x, left, large, hpacked, hseries, hx⟩ := h
  refine ⟨part :: parts, payload :: payloads, x, left, large, hpacked.cons hpart hne hfits, ?_, hx⟩
  rw [List.flatten_cons, List.append_assoc, hseries]

theorem encodeLoop_splits (hmarshal : ∀ series, (codec.marshal series).isSome = true)
    (maxBytes : Int) (rest : List TimeSeries) :
    match encodeLoop codec maxBytes rest with
    | .ok payloads => ∃ parts, Packed codec maxBytes parts payloads ∧ parts.flatten = rest
    | .error e => Refused codec maxBytes rest e := by
  fun_induction encodeLoop codec maxBytes rest with
  | case1 => exact ⟨[], .nil, rfl⟩
  | case2 rest hne e hfound =>
    obtain ⟨found, hok⟩ : ∃ found, searchBatch codec maxBytes rest 1 (rest.length + 1) none =
        .ok found := searchBatch_ok hmarshal
    rw [hok] at hfound
    cases hfound
  | case3 rest hne hfound hnone =>
    have hsome := hmarshal (rest.take 1)
    rw [hnone] at hsome
    cases hsome
  | case4 rest hne hfound payload hpayload =>
    have hlarge : TooLarge codec maxBytes (rest.take 1) :=
      searchBatch_none Nat.one_pos (Nat.succ_pos _) (fun _ => rfl)
        (fun hle => absurd hle (Nat.not_succ_le_self _)) hne hfound
    obtain ⟨x, left, rfl⟩ := List.exists_cons_of_ne_nil hne
    exact ⟨[], [], x, left, payload, .nil, rfl, hpayload, hlarge payload hpayload, rfl⟩
  | case5 rest hne n payload hfound hlt e herror ih =>
    obtain ⟨hpos, hpart⟩ := searchBatch_spec codec maxBytes Nat.one_pos (by simp) hfound
    rw [herror] at ih
    have hrefused := ih.append hpart (take_ne_nil hne hpos) (searchBatch_fits (by simp) hfound)
    rwa [List.take_append_drop] at hrefused
  | case6 rest hne n payload hfound hlt payloads hmore ih =>
    obtain ⟨hpos, hpart⟩ := searchBatch_spec codec maxBytes Nat.one_pos (by simp) hfound
    rw [hmore] at ih
    obtain ⟨parts, hpacked, hparts⟩ := ih
    refine ⟨rest.take n :: parts, hpacked.cons hpart (take_ne_nil hne hpos)
      (searchBatch_fits (by simp) hfound), ?_⟩
    rw [List.flatten_cons, hparts, List.take_append_drop]

end

/-- **Splitting loses nothing, whatever the sizes of the payloads are.** If the call succeeds, its
payloads decode to parts of the series that follow each other, and none exceeds the limit. It fails
only at a series whose payload exceeds the limit on its own. -/
theorem encodeCustomBatches_splits {codec : Codec}
    (hmarshal : ∀ series, (codec.marshal series).isSome = true) (maxBytes : Int)
    (series : List TimeSeries) :
    (match encodeCustomBatches codec maxBytes series with
      | .ok payloads => ∃ parts, Packed codec maxBytes parts payloads ∧ parts.flatten = series
      | .error e => Refused codec maxBytes series e) ∧
    ((∀ x ∈ series, ∀ payload, codec.marshal [x] = some payload →
        (payload.length : Int) ≤ maxBytes) →
      ∃ payloads, encodeCustomBatches codec maxBytes series = .ok payloads) := by
  have hloop := encodeLoop_splits hmarshal maxBytes series
  refine ⟨hloop, fun hfits => ?_⟩
  cases hresult : encodeCustomBatches codec maxBytes series with
  | ok payloads => exact ⟨payloads, rfl⟩
  | error e =>
    have hresult' : encodeLoop codec maxBytes series = .error e := hresult
    rw [hresult'] at hloop
    obtain ⟨parts, payloads, x, rest, payload, _, hseries, hx, hlarge, _⟩ := hloop
    have hmem : x ∈ series := by
      rw [← hseries]
      exact List.mem_append_right _ List.mem_cons_self
    exact absurd (hfits x hmem payload hx) (not_le.mpr hlarge)

/-! ### A codec -/

instance encodableUInt8 : Encodable UInt8 :=
  Encodable.ofLeftInverse UInt8.toNat UInt8.ofNat fun _ => UInt8.ofNat_toNat

instance : Encodable TimeSeries :=
  Encodable.ofLeftInverse
    (fun series => (series.labels, series.samples.map fun s => (s.value, s.timestamp)))
    (fun code => ⟨code.1, code.2.map fun s => ⟨s.1, s.2⟩⟩)
    (fun series => by
      rw [List.map_map]
      exact congrArg (TimeSeries.mk series.labels) (List.map_id series.samples))

/-- A list of series as a number, in as many bytes, with one and five exchanged: three empty series
take one byte, two take two, and a single one takes five. -/
def swappedCodec : Codec where
  marshal series := some (List.replicate (Equiv.swap 1 5 (Encodable.encode series)) 0)
  unmarshal payload := Encodable.decode (Equiv.swap 1 5 payload.length)
  decodes series payload h := by
    cases h
    rw [List.length_replicate, Equiv.swap_apply_self, Encodable.encodek]

/-- Four series are split after the third, since all four together are too large. -/
theorem encodeCustomBatches_splits_swapped :
    let single : TimeSeries := ⟨[], []⟩
    (∀ series, (swappedCodec.marshal series).isSome = true) ∧
    (∀ x ∈ List.replicate 4 single, ∀ payload, swappedCodec.marshal [x] = some payload →
      (payload.length : Int) ≤ 5) ∧
    ∃ payloads parts, encodeCustomBatches swappedCodec 5 (List.replicate 4 single) = .ok payloads ∧
      Packed swappedCodec 5 parts payloads ∧ parts.flatten = List.replicate 4 single ∧
      payloads.map List.length = [1, 5] ∧ parts.map List.length = [3, 1] := by
  intro single
  have hmarshal : ∀ series, (swappedCodec.marshal series).isSome = true := fun _ => rfl
  have hfits : ∀ x ∈ List.replicate 4 single, ∀ payload, swappedCodec.marshal [x] = some payload →
      (payload.length : Int) ≤ 5 := by
    intro x hx payload hpayload
    rw [List.eq_of_mem_replicate hx] at hpayload
    cases hpayload
    decide +kernel
  obtain ⟨hsplits, hok⟩ := encodeCustomBatches_splits hmarshal 5 (List.replicate 4 single)
  obtain ⟨payloads, hpayloads⟩ := hok hfits
  rw [hpayloads] at hsplits
  obtain ⟨parts, hpacked, hparts⟩ := hsplits
  have hrun : encodeCustomBatches swappedCodec 5 (List.replicate 4 single) =
      .ok [List.replicate 1 0, List.replicate 5 0] := by
    decide +kernel
  cases hpayloads.symm.trans hrun
  have hdecode : parts.map some = [some (List.replicate 3 single), some [single]] :=
    hpacked.decode.symm.trans (by decide +kernel)
  have hlengths := congrArg (List.map (Option.map List.length)) hdecode
  refine ⟨hmarshal, hfits, _, parts, hrun, hpacked, hparts, rfl, ?_⟩
  rw [List.map_map] at hlengths
  exact List.map_injective_iff.mpr (Option.some_injective Nat) ((List.map_map ..).trans hlengths)

end Dogstatsd
