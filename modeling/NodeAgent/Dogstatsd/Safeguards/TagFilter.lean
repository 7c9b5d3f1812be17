import NodeAgent.Dogstatsd.Parser.Tags
import NodeAgent.Dogstatsd.SeriesKeys

/-!
# What the tag policy keeps

The keys and the values of parsed tags are normalized already, so `Apply` leaves them as they are.
It goes through the tags in the order of their keys, and each of them is kept or counted in one of
the four counters.

* `tags_filtered` — a section and its permutations are filtered in the same way
-/

namespace Dogstatsd

open Infra

/-! ## One tag -/

def NormalTag (tag : Bytes × Bytes) : Prop :=
  normalizeLabelKey tag.1 = tag.1 ∧ sanitizeLabelValue tag.2 = tag.2

def TagDropStats.total (drops : TagDropStats) : Nat :=
  drops.blockedKeys + drops.maxKeyLength + drops.maxValueLength + drops.maxTagsPerMetric

namespace TagPolicy

variable {p : TagPolicy} {acc : Labels × TagDropStats} {tag : Bytes × Bytes}

/-- The key is not blocked, and neither the key nor the value is too long. -/
def within (p : TagPolicy) (tag : Bytes × Bytes) : Bool :=
  tag.1 ∉ p.blockedKeys ∧ tag.1.length ≤ p.maxTagKeyLength ∧ tag.2.length ≤ p.maxTagValueLength

def Keeps (p : TagPolicy) (kept : Labels) (tag : Bytes × Bytes) : Prop :=
  p.within tag = true ∧ kept.entries.length < p.maxTagsPerMetric

theorem applyTag_kept (htag : NormalTag tag) (h : p.Keeps acc.1 tag) :
    p.applyTag acc tag = (acc.1.insert tag.1 tag.2, acc.2) := by
  obtain ⟨hwithin, hroom⟩ := h
  obtain ⟨hblocked, hkey, hvalue⟩ := of_decide_eq_true hwithin
  unfold applyTag
  simp only [htag.1, htag.2]
  rw [if_neg hblocked, if_neg (not_lt.mpr hkey), if_neg (not_lt.mpr hvalue),
    if_neg (not_le.mpr hroom)]

theorem applyTag_dropped (htag : NormalTag tag) (h : ¬ p.Keeps acc.1 tag) :
    (p.applyTag acc tag).1 = acc.1 ∧ (p.applyTag acc tag).2.total = acc.2.total + 1 := by
  unfold applyTag TagDropStats.total
  simp only [htag.1, htag.2]
  split
  · exact ⟨rfl, by simp only; omega⟩
  next hblocked =>
  split
  · exact ⟨rfl, by simp only; omega⟩
  next hkey =>
  split
  · exact ⟨rfl, by simp only; omega⟩
  next hvalue =>
  split
  · exact ⟨rfl, by simp only; omega⟩
  next hroom =>
  exact absurd ⟨decide_eq_true ⟨hblocked, not_lt.mp hkey, not_lt.mp hvalue⟩, not_le.mp hroom⟩ h

/-! ## All tags -/

theorem foldl_applyTag : ∀ {tags : List (Bytes × Bytes)} {acc : Labels × TagDropStats},
    (∀ tag ∈ tags, NormalTag tag) → (tags.map Prod.fst).Nodup →
    (∀ key ∈ tags.map Prod.fst, key ∉ acc.1) →
    (tags.foldl p.applyTag acc).1 =
      ((tags.filter p.within).take (p.maxTagsPerMetric - acc.1.entries.length).toNat).foldl
        (fun labels tag => labels.insert tag.1 tag.2) acc.1 ∧
    (tags.foldl p.applyTag acc).1.entries.length + (tags.foldl p.applyTag acc).2.total =
      acc.1.entries.length + acc.2.total + tags.length
  | [], acc, _, _, _ => ⟨by rw [List.filter_nil, List.take_nil]; rfl, rfl⟩
  | tag :: tags, acc, hnormal, hnodup, hnew => by
    rw [List.forall_mem_cons] at hnormal
    rw [List.map_cons, List.nodup_cons] at hnodup
    rw [List.map_cons, List.forall_mem_cons] at hnew
    rw [List.foldl_cons, List.filter_cons, List.length_cons]
    by_cases hkeeps : p.Keeps acc.1 tag
    · have hroom := hkeeps.2
      have hrest : ∀ key ∈ tags.map Prod.fst, key ∉ acc.1.insert tag.1 tag.2 := by
        intro key hkey hmem
        rcases (AList.mem_insert _).mp hmem with rfl | hmem
        · exact hnodup.1 hkey
        · exact hnew.2 key hkey hmem
      have hlength : (acc.1.insert tag.1 tag.2).entries.length = acc.1.entries.length + 1 := by
        rw [Dict.length_insert, if_neg hnew.1]
      have hsucc : (p.maxTagsPerMetric - acc.1.entries.length).toNat =
          (p.maxTagsPerMetric - (acc.1.entries.length + 1 : Nat)).toNat + 1 := by omega
      rw [applyTag_kept hnormal.1 hkeeps, if_pos hkeeps.1, hsucc, List.take_succ_cons,
        List.foldl_cons]
      obtain ⟨hkept, htotal⟩ := @foldl_applyTag tags (acc.1.insert tag.1 tag.2, acc.2) hnormal.2
        hnodup.2 hrest
      simp only [hlength] at hkept htotal
      exact ⟨hkept, by omega⟩
    · obtain ⟨hfst, hsnd⟩ := applyTag_dropped hnormal.1 hkeeps
      have hnew' : ∀ key ∈ tags.map Prod.fst, key ∉ (p.applyTag acc tag).1 := hfst ▸ hnew.2
      obtain ⟨hkept, htotal⟩ := foldl_applyTag hnormal.2 hnodup.2 hnew'
      rw [hfst] at hkept htotal
      refine ⟨hkept.trans ?_, by omega⟩
      split
      · next hwithin =>
        -- there is no room for this tag, and none for those after it
        have hfull : (p.maxTagsPerMetric - acc.1.entries.length).toNat = 0 := by
          have hroom : ¬ (acc.1.entries.length : Int) < p.maxTagsPerMetric :=
            fun hroom => hkeeps ⟨hwithin, hroom⟩
          omega
        rw [hfull, List.take_zero, List.take_zero]
      · rfl

end TagPolicy

def NormalTags (tags : Labels) : Prop :=
  ∀ key value, tags.lookup key = some value → NormalTag (key, value)

variable {p : TagPolicy} {tags : Labels}

theorem NormalTags.foldl_apply (h : NormalTags tags) :
    (p.apply tags).1 =
      labelsOf (((sortedLabels tags).filter p.within).take p.maxTagsPerMetric.toNat) ∧
    (p.apply tags).1.entries.length + (p.apply tags).2.total = tags.entries.length := by
  obtain ⟨hkept, htotal⟩ := @TagPolicy.foldl_applyTag p (sortedLabels tags) (∅, ⟨0, 0, 0, 0⟩)
    (fun tag htag => h tag.1 tag.2 (Dict.mem_sortedEntries.mp htag))
    (Dict.nodup_keys_sortedEntries tags) (fun key _ => AList.notMem_empty key)
  refine ⟨?_, htotal.trans ?_⟩
  · rw [TagPolicy.apply, hkept, labelsOf]
    rw [show ((∅ : Labels).entries.length : Int) = 0 from rfl, sub_zero]
  · rw [sortedLabels, Dict.length_sortedEntries]
    exact Nat.zero_add _

/-- **What the policy keeps, and what it counts.** -/
structure Filtered (p : TagPolicy) (tags : Labels) : Prop where
  /-- A tag that is kept has the key and the value it had. -/
  unchanged : ∀ key value, (p.apply tags).1.lookup key = some value → tags.lookup key = some value
  counted : (p.apply tags).1.entries.length + (p.apply tags).2.blockedKeys +
    (p.apply tags).2.maxKeyLength + (p.apply tags).2.maxValueLength +
    (p.apply tags).2.maxTagsPerMetric = tags.entries.length
  /-- The first tags within the limits are kept, in the order of the keys. -/
  kept : sortedLabels (p.apply tags).1 =
    ((sortedLabels tags).filter p.within).take p.maxTagsPerMetric.toNat

theorem NormalTags.filtered (h : NormalTags tags) (p : TagPolicy) : Filtered p tags := by
  obtain ⟨hkept, htotal⟩ := h.foldl_apply (p := p)
  have hsub : (((sortedLabels tags).filter p.within).take p.maxTagsPerMetric.toNat).Sublist
      (sortedLabels tags) := (List.take_sublist _ _).trans List.filter_sublist
  have hnodup := (Dict.nodup_keys_sortedEntries tags).sublist (hsub.map Prod.fst)
  refine ⟨fun key value hlookup => ?_, ?_, ?_⟩
  · rw [hkept, lookup_labelsOf hnodup] at hlookup
    exact Dict.mem_sortedEntries.mp (hsub.mem hlookup)
  · unfold TagDropStats.total at htotal
    omega
  · rw [hkept]
    have hsorted := Dict.pairwise_keys_sortedEntries (fun _ _ => List.le_total _ _)
      (fun _ _ _ => List.le_trans) tags
    exact Dict.sortedEntries_foldl_insert (fun _ _ => List.le_total _ _)
      (fun _ _ _ => List.le_trans) (fun _ _ => List.le_antisymm) hnodup
      (hsorted.sublist (hsub.map Prod.fst))

/-! ## Parsed tags -/

theorem sanitizeLabelValue_labelValueOf (piece : Bytes) :
    sanitizeLabelValue (labelValueOf piece) = labelValueOf piece := by
  unfold labelValueOf
  split
  · exact sanitizeLabelValue_idem _
  · decide +kernel

theorem normalTag_pieceTag (piece : Bytes) : NormalTag (pieceTag piece) :=
  ⟨normalizeLabelKey_idem _, sanitizeLabelValue_labelValueOf piece⟩

theorem normalTags_of_parseTags {raw : Bytes} (h : parseTags raw = .ok tags) : NormalTags tags := by
  obtain ⟨-, hnodup, rfl⟩ := parseTags_ok_iff.mp h
  rw [← map_fst_pieceTag] at hnodup
  intro key value hlookup
  obtain ⟨piece, -, hpiece⟩ := List.mem_map.mp ((lookup_labelsOf hnodup).mp hlookup)
  exact hpiece ▸ normalTag_pieceTag piece

theorem parseTags_perm {raw raw' : Bytes} (h : parseTags raw = .ok tags)
    (hperm : (raw'.splitOn 44).Perm (raw.splitOn 44)) :
    ∃ tags', parseTags raw' = .ok tags' ∧ ∀ key, tags'.lookup key = tags.lookup key := by
  obtain ⟨hnamed, hnodup, rfl⟩ := parseTags_ok_iff.mp h
  have hpieces : (tagPieces raw').Perm (tagPieces raw) := (hperm.map _).filter _
  have hnodup' : ((tagPieces raw').map labelName).Nodup :=
    (hpieces.map labelName).nodup_iff.mpr hnodup
  refine ⟨_, parseTags_ok_iff.mpr ⟨fun piece hp => hnamed piece (hpieces.mem_iff.mp hp), hnodup',
    rfl⟩, fun key => Option.ext fun value => ?_⟩
  rw [← map_fst_pieceTag] at hnodup hnodup'
  rw [lookup_labelsOf hnodup, lookup_labelsOf hnodup']
  exact (hpieces.map pieceTag).mem_iff

theorem apply_congr {tags' : Labels} (p : TagPolicy)
    (h : ∀ key, tags'.lookup key = tags.lookup key) : p.apply tags' = p.apply tags := by
  rw [TagPolicy.apply, sortedLabels_congr h]
  rfl

/-- **A section of tags is filtered as described, and so is every permutation of its pieces, with
the same result.** -/
theorem tags_filtered (p : TagPolicy) {raw raw' : Bytes} (h : parseTags raw = .ok tags)
    (hperm : (raw'.splitOn 44).Perm (raw.splitOn 44)) :
    Filtered p tags ∧ ∃ tags', parseTags raw' = .ok tags' ∧
      (∀ key, tags'.lookup key = tags.lookup key) ∧ p.apply tags' = p.apply tags := by
  obtain ⟨tags', hparse, hlookup⟩ := parseTags_perm h hperm
  exact ⟨(normalTags_of_parseTags h).filtered p, tags', hparse, hlookup, apply_congr p hlookup⟩

theorem tags_filtered_swapped :
    let p := newTagPolicy (ascii "team") 10 64 256
    ∃ tags tags', parseTags (ascii "env:prod,team:core") = .ok tags ∧ Filtered p tags ∧
      parseTags (ascii "team:core,env:prod") = .ok tags' ∧ p.apply tags' = p.apply tags := by
  have hparse : parseTags (ascii "env:prod,team:core") =
      .ok (labelsOf ((tagPieces (ascii "env:prod,team:core")).map pieceTag)) :=
    parseTags_ok_iff.mpr ⟨by decide +kernel, by decide +kernel, rfl⟩
  have hperm : ((ascii "team:core,env:prod").splitOn 44).Perm
      ((ascii "env:prod,team:core").splitOn 44) := by
    decide +kernel
  obtain ⟨hfiltered, tags', hparse', -, happly⟩ :=
    tags_filtered (newTagPolicy (ascii "team") 10 64 256) hparse hperm
  exact ⟨_, tags', hparse, hfiltered, hparse', happly⟩

end Dogstatsd
