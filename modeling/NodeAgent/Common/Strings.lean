import Mathlib.Data.List.GetD
import NodeAgent.Infra.Segments

/-!
# Truncated labels (`common/strings.go`)

`Collect` cuts the sample of a log message to the length of a label. A label value has to be valid.

* `truncateUtf8_longest` — **the longest valid part within the limit**
-/

namespace Common

open Infra

variable {s t : Bytes}

/-- `utf8.RuneStart` -/
def runeStart (b : UInt8) : Bool := b < 0x80 || 0xC0 ≤ b

/-- The loop of `TruncateUtf8`. -/
def cutPosition (s : Bytes) : Nat → Nat
  | 0 => 0
  | n + 1 => if runeStart (s.getD (n + 1) 0) then n + 1 else cutPosition s n

def truncateUtf8 (s : Bytes) (maxLength : Nat) : Bytes :=
  if s.length ≤ maxLength then s else s.take (cutPosition s maxLength)

theorem cutPosition_spec (s : Bytes) (n : Nat) : cutPosition s n ≤ n ∧
    (cutPosition s n ≠ 0 → runeStart (s.getD (cutPosition s n) 0) = true) ∧
    ∀ p ≤ n, cutPosition s n < p → runeStart (s.getD p 0) = false := by
  induction n with
  | zero => simp [cutPosition]
  | succ n ih =>
    unfold cutPosition
    split
    · next h => exact ⟨le_rfl, fun _ => h, fun p hp hlt => by omega⟩
    · next h =>
      refine ⟨by omega, ih.2.1, fun p hp hlt => ?_⟩
      rcases Nat.lt_or_eq_of_le hp with hp | rfl
      · exact ih.2.2 p (by omega) hlt
      · simpa using h

theorem runeStart_of_encoding {r : Rune} {a : UInt8} {tail : Bytes} (h : Encoding r (a :: tail)) :
    runeStart a = true ∧ ∀ b ∈ tail, runeStart b = false := by
  cases h <;> grind [runeStart, isTwo, isThree, isFour]

/-! ## Where a valid string can be cut -/

variable {l : List (Rune × Bytes)}

theorem segments_encodings (hl : ∀ e ∈ l, Encoding e.1 e.2) (u : Bytes) :
    segments (l.flatMap Prod.snd ++ u) = l ++ segments u := by
  induction l with
  | nil => rfl
  | cons e l ih =>
    obtain ⟨he, hl⟩ := List.forall_mem_cons.mp hl
    rw [List.flatMap_cons, List.append_assoc, segments_encoding_append he, ih hl, List.cons_append]

theorem encodings_of_valid (h : ValidUTF8 s) : ∀ e ∈ segments s, Encoding e.1 e.2 :=
  fun e he => encoding_of_mem_segments he (h e he)

theorem runeStart_behind {a : UInt8} {u : Bytes} (ht : ValidUTF8 t)
    (h : ValidUTF8 (t ++ a :: u)) : runeStart a = true := by
  have hseg := segments_encodings (encodings_of_valid ht) (a :: u)
  rw [flatMap_snd_segments, segments_cons] at hseg
  have hfirst := encodings_of_valid h (first a u) (by rw [hseg]; simp)
  obtain ⟨b, tail, hb⟩ := List.exists_cons_of_ne_nil (first_ne_nil a u)
  obtain ⟨rfl, -⟩ := List.cons_prefix_cons.mp (hb ▸ first_prefix a u)
  rw [hb] at hfirst
  exact (runeStart_of_encoding hfirst).1

theorem valid_take (hl : ∀ e ∈ l, Encoding e.1 e.2) : ∀ p < (l.flatMap Prod.snd).length,
    runeStart ((l.flatMap Prod.snd).getD p 0) = true → ValidUTF8 ((l.flatMap Prod.snd).take p) := by
  induction l with
  | nil => simp
  | cons e l ih =>
    obtain ⟨he, hl⟩ := List.forall_mem_cons.mp hl
    intro p hp hstart
    rw [List.flatMap_cons] at hp hstart ⊢
    by_cases hlt : p < e.2.length
    · -- inside of an encoding only its first byte is one to start with
      obtain ⟨r, bytes⟩ := e
      cases p with
      | zero => exact fun e he => by cases he
      | succ p =>
        cases bytes with
        | nil => cases he
        | cons a tail =>
          have hp' : p < tail.length := by simpa using hlt
          have hno := (runeStart_of_encoding he).2 _ (List.getElem_mem hp')
          rw [List.getD_append _ _ _ _ hlt, List.getD_cons_succ, List.getD_eq_getElem _ _ hp',
            hno] at hstart
          cases hstart
    · rw [List.getD_append_right _ _ _ _ (by omega)] at hstart
      rw [List.length_append] at hp
      rw [List.take_append, List.take_of_length_le (by omega)]
      exact valid_encoding_append he (ih hl _ (by omega) hstart)

/-- **What is left of a valid string is its longest valid part within the limit.** -/
theorem truncateUtf8_longest (h : ValidUTF8 s) (maxLength : Nat) :
    truncateUtf8 s maxLength <+: s ∧ (truncateUtf8 s maxLength).length ≤ maxLength ∧
      ValidUTF8 (truncateUtf8 s maxLength) ∧
      ∀ t, t <+: s → t.length ≤ maxLength → ValidUTF8 t → t <+: truncateUtf8 s maxLength := by
  obtain ⟨hle, hstart, hlast⟩ := cutPosition_spec s maxLength
  unfold truncateUtf8
  split
  · next hlen => exact ⟨List.prefix_refl s, hlen, h, fun t ht _ _ => ht⟩
  · next hlen =>
    refine ⟨List.take_prefix _ s, by simp; omega, ?_, ?_⟩
    · by_cases hzero : cutPosition s maxLength = 0
      · rw [hzero]
        exact fun e he => by cases he
      · have := valid_take (encodings_of_valid h) (cutPosition s maxLength)
        rw [flatMap_snd_segments] at this
        exact this (by omega) (hstart hzero)
    · rintro t ⟨u, rfl⟩ ht hvalid
      rw [List.prefix_take_iff]
      refine ⟨List.prefix_append t u, Nat.le_of_not_lt fun hlt => ?_⟩
      cases u with
      | nil => simp at hlen; omega
      | cons a u =>
        have := hlast t.length ht hlt
        rw [List.getD_append_right _ _ _ _ le_rfl, Nat.sub_self] at this
        exact absurd (runeStart_behind hvalid h) (by simpa using this)

/-- The rune behind the first one does not fit. -/
theorem truncateUtf8_longest_euro : truncateUtf8 [49, 0xE2, 0x82, 0xAC] 2 = [49] ∧
    ValidUTF8 (truncateUtf8 [49, 0xE2, 0x82, 0xAC] 2) :=
  ⟨by decide, (truncateUtf8_longest (valid_encoding_append (.one (by decide))
    (valid_encoding_append (.three (by decide)) fun _ he => by cases he)) 2).2.2.1⟩

end Common
