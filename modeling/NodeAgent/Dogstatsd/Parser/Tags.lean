import NodeAgent.Dogstatsd.Normalize
import NodeAgent.Dogstatsd.Parser

/-!
# Tag sections

A tag section is accepted if no key is normalized to `label`, and no two keys are normalized to the
same one. `label` is also what a key without letters and digits is normalized to, so a tag with the
key `label` is refused as if it had none.

* `documented_rejections_iff` — when sections are refused for the documented reasons only
-/

namespace Dogstatsd

open Infra

/-! ## Pieces -/

/-- The parts that are not blank, trimmed. -/
def piecesOf (parts : List Bytes) : List Bytes := (parts.map trimSpaceBytes).filter (· ≠ [])

/-- The pieces between the commas. -/
def tagPieces (raw : Bytes) : List Bytes := piecesOf (raw.splitOn 44)

/-- The key of a piece, as it is sent. -/
def pieceKey (piece : Bytes) : Bytes := (splitTwo 58 piece).1

def labelName (piece : Bytes) : Bytes := normalizeLabelKey (pieceKey piece)

def labelValueOf (piece : Bytes) : Bytes :=
  match (splitTwo 58 piece).2 with
  | some v => sanitizeLabelValue v
  | none => ascii "true"

def pieceTag (piece : Bytes) : Bytes × Bytes := (labelName piece, labelValueOf piece)

def labelsOf (tags : List (Bytes × Bytes)) : Labels :=
  tags.foldl (fun labels tag => labels.insert tag.1 tag.2) ∅

theorem labelName_ne_nil (piece : Bytes) : labelName piece ≠ [] :=
  normalizeName_ne_nil isLabelByte (by decide) _

/-! ## What is accepted -/

theorem piecesOf_cons (part : Bytes) (parts : List Bytes) :
    piecesOf (part :: parts) =
      if trimSpaceBytes part = [] then piecesOf parts
      else trimSpaceBytes part :: piecesOf parts := by
  rw [piecesOf, List.map_cons, List.filter_cons]
  split
  · next h => rw [if_neg (by simpa using h)]; rfl
  · next h => rw [if_pos (by simpa using h)]; rfl

theorem parseTagParts_cons (tags : Labels) (part : Bytes) (parts : List Bytes) :
    parseTagParts tags (part :: parts) =
      let piece := trimSpaceBytes part
      if piece = [] then parseTagParts tags parts
      else if labelName piece = ascii "label" then .error (.emptyTagKey piece)
      else if labelName piece ∈ tags then .error (.tagCollision (labelName piece))
      else parseTagParts (tags.insert (labelName piece) (labelValueOf piece)) parts := by
  simp only [parseTagParts, labelName, pieceKey, labelValueOf]
  split
  · rfl
  · have hne := labelName_ne_nil (trimSpaceBytes part)
    rw [labelName, pieceKey] at hne
    simp only [hne, false_or]
    rfl

theorem forall_new_insert {tags : Labels} {name value : Bytes} {pieces : List Bytes} :
    (∀ piece ∈ pieces, labelName piece ≠ ascii "label" ∧ labelName piece ∉ tags.insert name value) ↔
      (∀ piece ∈ pieces, labelName piece ≠ ascii "label" ∧ labelName piece ∉ tags) ∧
        name ∉ pieces.map labelName := by
  simp only [AList.mem_insert, not_or, List.mem_map, not_exists, not_and]
  constructor
  · intro h
    exact ⟨fun piece hp => ⟨(h piece hp).1, (h piece hp).2.2⟩, fun piece hp => (h piece hp).2.1⟩
  · intro h piece hp
    exact ⟨(h.1 piece hp).1, h.2 piece hp, (h.1 piece hp).2⟩

theorem parseTagParts_ok_iff {t : Labels} : ∀ {parts : List Bytes} {tags : Labels},
    parseTagParts tags parts = .ok t ↔
      (∀ piece ∈ piecesOf parts, labelName piece ≠ ascii "label" ∧ labelName piece ∉ tags) ∧
      ((piecesOf parts).map labelName).Nodup ∧
      ((piecesOf parts).map pieceTag).foldl (fun labels tag => labels.insert tag.1 tag.2) tags = t
  | [], tags => by simp [parseTagParts, piecesOf]
  | part :: parts, tags => by
    rw [parseTagParts_cons, piecesOf_cons]
    simp only
    split
    · exact parseTagParts_ok_iff
    split
    · next hlabel => simp [hlabel]
    next hlabel =>
    split
    · next hmem => simp [hmem]
    next hmem =>
    rw [parseTagParts_ok_iff, forall_new_insert, List.forall_mem_cons, List.map_cons,
      List.nodup_cons, List.map_cons, List.foldl_cons]
    simp only [hlabel, hmem, pieceTag, ne_eq, not_false_eq_true, and_self, true_and, and_assoc]

theorem tagPieces_of_blank {raw : Bytes} (h : trimSpaceBytes raw = []) : tagPieces raw = [] := by
  have hcomma : (44 : UInt8) ∉ raw := fun hmem =>
    trimSpaceBytes_ne_nil (by decide) (by decide) hmem h
  rw [tagPieces, piecesOf, List.splitOn_eq_singleton hcomma, List.map_singleton, h]
  rfl

theorem parseTags_eq (raw : Bytes) : parseTags raw = parseTagParts ∅ (raw.splitOn 44) := by
  unfold parseTags
  split
  · next h =>
    refine (parseTagParts_ok_iff.mpr ?_).symm
    have hnone : piecesOf (raw.splitOn 44) = [] := tagPieces_of_blank h
    simp [hnone]
  · rfl

/-- **Which sections are accepted, and with which tags.** -/
theorem parseTags_ok_iff {raw : Bytes} {t : Labels} : parseTags raw = .ok t ↔
    (∀ piece ∈ tagPieces raw, labelName piece ≠ ascii "label") ∧
    ((tagPieces raw).map labelName).Nodup ∧ labelsOf ((tagPieces raw).map pieceTag) = t := by
  rw [parseTags_eq, parseTagParts_ok_iff]
  simp only [AList.notMem_empty, not_false_eq_true, and_true]
  rfl

theorem parseTags_error_iff {raw : Bytes} : (∃ e, parseTags raw = .error e) ↔
    ¬ ((∀ piece ∈ tagPieces raw, labelName piece ≠ ascii "label") ∧
      ((tagPieces raw).map labelName).Nodup) := by
  constructor
  · rintro ⟨e, he⟩ ⟨hnamed, hnodup⟩
    rw [parseTags_ok_iff.mpr ⟨hnamed, hnodup, rfl⟩] at he
    cases he
  · intro h
    cases hparse : parseTags raw with
    | error e => exact ⟨e, rfl⟩
    | ok t =>
      obtain ⟨hnamed, hnodup, -⟩ := parseTags_ok_iff.mp hparse
      exact absurd ⟨hnamed, hnodup⟩ h

/-! ## The tags of a section -/

theorem map_fst_pieceTag (pieces : List Bytes) :
    (pieces.map pieceTag).map Prod.fst = pieces.map labelName := by
  rw [List.map_map]
  rfl

theorem length_labelsOf {tags : List (Bytes × Bytes)} (h : (tags.map Prod.fst).Nodup) :
    (labelsOf tags).entries.length = tags.length := by
  have hlength := Dict.length_foldl_insert (m := (∅ : Labels)) h
    fun k _ => AList.notMem_empty k
  rw [labelsOf, hlength]
  exact Nat.zero_add _

theorem lookup_labelsOf {tags : List (Bytes × Bytes)} (h : (tags.map Prod.fst).Nodup)
    {key value : Bytes} : (labelsOf tags).lookup key = some value ↔ (key, value) ∈ tags := by
  rw [labelsOf, Dict.lookup_foldl_insert h, AList.lookup_empty]
  simp

/-! ## The reasons to refuse a section -/

/-- Some piece has a key without a letter or digit, or two have the same label name. -/
def Documented (raw : Bytes) : Prop :=
  (∃ piece ∈ tagPieces raw, ¬ HasWord (pieceKey piece)) ∨ ¬ ((tagPieces raw).map labelName).Nodup

/-- A section is refused for the documented reasons only, and otherwise gives one entry for each
piece. -/
structure AsDocumented (raw : Bytes) : Prop where
  refused : (∃ e, parseTags raw = .error e) ↔ Documented raw
  accepted : ¬ Documented raw → ∃ tags, parseTags raw = .ok tags ∧
    tags.entries.length = (tagPieces raw).length ∧
    ∀ piece ∈ tagPieces raw, tags.lookup (labelName piece) = some (labelValueOf piece)

/-- **A section is treated as documented if and only if there is a documented reason to refuse it,
or none of its keys is normalized to `label`.** -/
theorem documented_rejections_iff (raw : Bytes) :
    AsDocumented raw ↔
      Documented raw ∨ ∀ piece ∈ tagPieces raw, labelName piece ≠ ascii "label" := by
  constructor
  · intro h
    by_cases hdoc : Documented raw
    · exact .inl hdoc
    · obtain ⟨tags, hparse, -⟩ := h.accepted hdoc
      exact .inr (parseTags_ok_iff.mp hparse).1
  · intro h
    -- a documented reason is a reason of the parser
    have hrefused : Documented raw → ∃ e, parseTags raw = .error e := by
      rintro (⟨piece, hpiece, hword⟩ | hcollide)
      · exact parseTags_error_iff.mpr fun hok =>
          hok.1 piece hpiece (normalizeLabelKey_of_no_word hword)
      · exact parseTags_error_iff.mpr fun hok => hcollide hok.2
    have haccepted : ¬ Documented raw →
        (∀ piece ∈ tagPieces raw, labelName piece ≠ ascii "label") ∧
          ((tagPieces raw).map labelName).Nodup := fun hdoc =>
      ⟨h.resolve_left hdoc, not_not.mp (not_or.mp hdoc).2⟩
    refine ⟨⟨fun herror => ?_, hrefused⟩, fun hdoc => ?_⟩
    · by_contra hdoc
      exact parseTags_error_iff.mp herror (haccepted hdoc)
    · obtain ⟨hnamed, hnodup⟩ := haccepted hdoc
      rw [← map_fst_pieceTag] at hnodup
      refine ⟨_, parseTags_ok_iff.mpr ⟨hnamed, map_fst_pieceTag _ ▸ hnodup, rfl⟩, ?_,
        fun piece hpiece => ?_⟩
      · rw [length_labelsOf hnodup, List.length_map]
      · exact (lookup_labelsOf hnodup).mpr (List.mem_map_of_mem hpiece)

/-- **A tag with the key `label` is refused as if its key were empty.** -/
theorem label_key_rejected :
    parseTags (ascii "label:blue") = .error (.emptyTagKey (ascii "label:blue")) ∧
      ¬ AsDocumented (ascii "label:blue") := by
  have hparse : parseTags (ascii "label:blue") = .error (.emptyTagKey (ascii "label:blue")) := by
    decide +kernel
  refine ⟨hparse, fun h => ?_⟩
  have hpieces : tagPieces (ascii "label:blue") = [ascii "label:blue"] := by decide +kernel
  rcases h.refused.mp ⟨_, hparse⟩ with ⟨piece, hpiece, hword⟩ | hcollide
  · rw [hpieces, List.mem_singleton] at hpiece
    subst hpiece
    exact hword ⟨108, by decide +kernel, 108, by decide, by decide⟩
  · rw [hpieces] at hcollide
    exact hcollide (List.nodup_singleton _)

end Dogstatsd
