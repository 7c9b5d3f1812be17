import NodeAgent.Infra.Delimited
import NodeAgent.Dogstatsd.Parser
import NodeAgent.Dogstatsd.Safeguards

/-!
# The keys of series

The limiter knows a series by its name and its fingerprint, the aggregator knows a metric by its
key. Both are strings of parts and separators. None of the parts has the separator in it that ends
it, so two metrics have the same identity in one place if and only if they have it in the other.

* `identity_agrees` — the limiter and the aggregator agree on identity
-/

namespace Dogstatsd

open Infra

variable {type type' : MetricType} {labels labels' tags : Labels} {name name' : Bytes}

/-! ## What a part can not contain -/

theorem normalizeMetricName_no_separator (name : Bytes) : 0xff ∉ normalizeMetricName name := by
  intro hmem
  have hallowed : isNameByte 0xff = true :=
    all_normalizeName (by decide +kernel) (by decide +kernel) name 0xff hmem
  exact absurd hallowed (by decide)

theorem normalizeLabelKey_no_separator (key : Bytes) :
    61 ∉ normalizeLabelKey key ∧ 0xff ∉ normalizeLabelKey key := by
  have hall : ∀ b ∈ normalizeLabelKey key, isLabelByte b = true :=
    all_normalizeName (by decide +kernel) (by decide +kernel) key
  exact ⟨fun h => absurd (hall 61 h) (by decide), fun h => absurd (hall 0xff h) (by decide)⟩

theorem sanitizeLabelValue_no_separator (value : Bytes) : 0xff ∉ sanitizeLabelValue value := by
  unfold sanitizeLabelValue
  simp only
  split
  · decide
  · exact fun h => (valid_toValidUTF8 (.three (by decide)) value).no_ff (mem_trimSpaceBytes h)

theorem MetricType.text_no_separator (h : type.Supported) : 0xff ∉ type.text := by
  cases type with
  | other text => exact h.elim
  | _ => decide

theorem MetricType.text_inj (h : type.Supported) (h' : type'.Supported)
    (heq : type.text = type'.text) : type = type' := by
  revert heq
  cases type with
  | other text => exact h.elim
  | _ =>
    cases type' with
    | other text => exact h'.elim
    | _ => decide

/-- No name has a `=`, and neither names nor values have a byte `0xff`. -/
def Clean (labels : Labels) : Prop :=
  ∀ k v, labels.lookup k = some v → 61 ∉ k ∧ 0xff ∉ k ∧ 0xff ∉ v

theorem Clean.insert (h : Clean labels) {key value : Bytes} (hkey : 61 ∉ key ∧ 0xff ∉ key)
    (hvalue : 0xff ∉ value) : Clean (labels.insert key value) := by
  intro k v hk
  rcases Dict.of_lookup_insert hk with ⟨rfl, rfl⟩ | ⟨_, hk⟩
  · exact ⟨hkey.1, hkey.2, hvalue⟩
  · exact h k v hk

theorem clean_applyTag {p : TagPolicy} {acc : Labels × TagDropStats} (h : Clean acc.1)
    (tag : Bytes × Bytes) : Clean (p.applyTag acc tag).1 := by
  unfold TagPolicy.applyTag
  simp only
  split
  · exact h
  split
  · exact h
  split
  · exact h
  split
  · exact h
  · exact h.insert (normalizeLabelKey_no_separator tag.1) (sanitizeLabelValue_no_separator tag.2)

/-- **The tags that pass the policy are clean**, whatever they were. -/
theorem clean_apply (p : TagPolicy) (tags : Labels) : Clean (p.apply tags).1 := by
  refine List.foldlRecOn (motive := fun acc : Labels × TagDropStats => Clean acc.1) _ _ ?_ ?_
  · intro k v hk
    simp at hk
  · exact fun acc h tag _ => clean_applyTag h tag

theorem Clean.withCustom {tags : Labels} (h : Clean tags) : Clean (withCustom tags) :=
  h.insert (by decide) (by decide)

/-! ## Labels in a string -/

def labelText (label : Bytes × Bytes) : Bytes := label.1 ++ 61 :: label.2

theorem labelText_inj {l l' : Bytes × Bytes} (h : 61 ∉ l.1) (h' : 61 ∉ l'.1)
    (heq : labelText l = labelText l') : l = l' := by
  obtain ⟨hk, hv⟩ := append_cons_inj h h' heq
  exact Prod.ext hk hv

theorem map_labelText_inj : ∀ {l l' : List (Bytes × Bytes)}, (∀ e ∈ l, 61 ∉ e.1) →
    (∀ e ∈ l', 61 ∉ e.1) → l.map labelText = l'.map labelText → l = l'
  | [], [], _, _, _ => rfl
  | [], _ :: _, _, _, h => by cases h
  | _ :: _, [], _, _, h => by cases h
  | e :: l, e' :: l', hl, hl', h => by
    rw [List.forall_mem_cons] at hl hl'
    rw [List.map_cons, List.map_cons, List.cons.injEq] at h
    rw [labelText_inj hl.1 hl'.1 h.1, map_labelText_inj hl.2 hl'.2 h.2]

theorem sortedLabels_congr (h : ∀ k, labels.lookup k = labels'.lookup k) :
    sortedLabels labels = sortedLabels labels' :=
  Dict.sortedEntries_congr (fun _ _ => List.le_total _ _) (fun _ _ _ => List.le_trans)
    (fun _ _ => List.le_antisymm) h

theorem lookup_of_sortedLabels (h : sortedLabels labels = sortedLabels labels') (k : Bytes) :
    labels.lookup k = labels'.lookup k := by
  refine Option.ext fun v => ?_
  rw [← Dict.mem_sortedEntries, ← Dict.mem_sortedEntries]
  exact iff_of_eq (congrArg ((k, v) ∈ ·) h)

theorem Clean.sortedLabels {labels : Labels} (h : Clean labels) :
    ∀ e ∈ sortedLabels labels, 61 ∉ e.1 ∧ 0xff ∉ labelText e := by
  rintro ⟨k, v⟩ he
  obtain ⟨h1, h2, h3⟩ := h k v (Dict.mem_sortedEntries.mp he)
  refine ⟨h1, fun hmem => ?_⟩
  rcases List.mem_append.mp hmem with hmem | hmem
  · exact h2 hmem
  · rcases List.mem_cons.mp hmem with hmem | hmem
    · exact absurd hmem (by decide)
    · exact h3 hmem

theorem labels_of_texts (h : Clean labels) (h' : Clean labels')
    (heq : (sortedLabels labels).map labelText = (sortedLabels labels').map labelText) (k : Bytes) :
    labels.lookup k = labels'.lookup k :=
  lookup_of_sortedLabels (map_labelText_inj (fun e he => (h.sortedLabels e he).1)
    (fun e he => (h'.sortedLabels e he).1) heq) k

/-! ## The key of the aggregator -/

theorem aggregationKey_eq (name : Bytes) (type : MetricType) (labels : Labels) :
    aggregationKey name type labels ++ [0xff] = name ++ 0xff :: terminated 0xff
      (type.text :: (sortedLabels labels).map labelText) := by
  rw [← append_flatMap_cons]
  simp [aggregationKey, labelText]

theorem aggregationKey_parts (hname : 0xff ∉ name) (hname' : 0xff ∉ name') (ht : type.Supported)
    (ht' : type'.Supported)
    (h : aggregationKey name type labels = aggregationKey name' type' labels') :
    name = name' ∧ type = type' ∧ terminated 0xff ((sortedLabels labels).map labelText) =
      terminated 0xff ((sortedLabels labels').map labelText) := by
  have hkeys := congrArg (· ++ [0xff]) h
  simp only [aggregationKey_eq] at hkeys
  obtain ⟨hn, hrest⟩ := append_cons_inj hname hname' hkeys
  rw [terminated_cons, terminated_cons] at hrest
  obtain ⟨htext, hlabels⟩ := append_cons_inj (MetricType.text_no_separator ht)
    (MetricType.text_no_separator ht') hrest
  exact ⟨hn, MetricType.text_inj ht ht' htext, hlabels⟩

/-- **The key is that of one name, one type and one map of labels.** -/
theorem aggregationKey_inj (hname : 0xff ∉ name) (hname' : 0xff ∉ name') (ht : type.Supported)
    (ht' : type'.Supported) (hl : Clean labels) (hl' : Clean labels') :
    aggregationKey name type labels = aggregationKey name' type' labels' ↔
      type = type' ∧ name = name' ∧ ∀ k, labels.lookup k = labels'.lookup k := by
  constructor
  · intro h
    obtain ⟨hn, htype, hlabels⟩ := aggregationKey_parts hname hname' ht ht' h
    refine ⟨htype, hn, labels_of_texts hl hl' (terminated_inj ?_ ?_ hlabels)⟩
    · exact List.forall_mem_map.mpr fun e he => (hl.sortedLabels e he).2
    · exact List.forall_mem_map.mpr fun e he => (hl'.sortedLabels e he).2
  · rintro ⟨rfl, rfl, hlookup⟩
    rw [aggregationKey, aggregationKey, sortedLabels_congr hlookup]

/-! ## The series of a metric -/

def rawSuffix : MetricType → Bytes
  | .counter => ascii "_counter_event"
  | .gauge => ascii "_gauge"
  | .timer => ascii "_timer_ms"
  | .histogram => ascii "_histogram_value"
  | .set => ascii "_set_event"
  | .other _ => []

theorem rawSuffix_unique (h : type.Supported) (h' : type'.Supported)
    (hsuffix : rawSuffix type <:+ rawSuffix type') : type = type' := by
  revert hsuffix
  cases type with
  | other text => exact h.elim
  | _ =>
    cases type' with
    | other text => exact h'.elim
    | _ => decide

theorem append_rawSuffix_inj (h : type.Supported) (h' : type'.Supported)
    (heq : name ++ rawSuffix type = name' ++ rawSuffix type') : type = type' ∧ name = name' := by
  have hsuffix : rawSuffix type <:+ name' ++ rawSuffix type' := heq ▸ List.suffix_append _ _
  have htype : type = type' := by
    rcases List.suffix_or_suffix_of_suffix hsuffix (List.suffix_append name' _) with hs | hs
    · exact rawSuffix_unique h h' hs
    · exact (rawSuffix_unique h' h hs).symm
  subst htype
  exact ⟨rfl, List.append_cancel_right heq⟩

theorem lookup_rawLabels (h : ascii "is_custom" ∉ tags) (k : Bytes) :
    AList.lookup k (tags.entries.foldl (fun labels tag => labels.insert tag.1 tag.2)
      (AList.singleton (ascii "is_custom") (ascii "true")) : Labels) =
        (withCustom tags).lookup k := by
  let l : List (Bytes × Bytes) := tags.entries.map (fun e => (e.1, e.2))
  have hkeys : l.map Prod.fst = tags.keys := by rw [List.map_map]; rfl
  have hmem : ∀ v, (k, v) ∈ l ↔ tags.lookup k = some v := by
    intro v
    rw [← Option.mem_def, AList.mem_lookup_iff]
    simp [l]
  have hfold : tags.entries.foldl (fun labels tag => labels.insert tag.1 tag.2)
      (AList.singleton (ascii "is_custom") (ascii "true") : Labels) =
      l.foldl (fun labels tag => labels.insert tag.1 tag.2)
        (AList.singleton (ascii "is_custom") (ascii "true")) := by
    rw [List.foldl_map]
  refine Option.ext fun v => ?_
  rw [hfold, Dict.lookup_foldl_insert (hkeys ▸ tags.nodupKeys), hmem, hkeys, withCustom,
    ← AList.insert_empty]
  by_cases hk : k = ascii "is_custom"
  · subst hk
    rw [AList.lookup_insert, AList.lookup_insert, AList.lookup_eq_none.mpr h]
    have hnot : ascii "is_custom" ∉ tags.keys := h
    simp [hnot]
  · rw [AList.lookup_insert_ne hk, AList.lookup_insert_ne hk]
    simp

/-- **The series of a metric that the parser has accepted**, if its value is finite. -/
theorem buildRawSeries_cases {m : Metric} (htype : m.type.Supported) (hrate : 0 < m.sampleRate)
    (hcustom : ascii "is_custom" ∉ tags) (unixNano : Int) :
    (∃ series, buildRawSeries m tags unixNano = .ok series ∧
      series.labels = labelsMapToSortedPromLabels (normalizeMetricName m.name ++ rawSuffix m.type)
        (withCustom tags)) ∨
    m.type = .counter ∧ float64Quotient m.value m.sampleRate = none ∧
      buildRawSeries m tags unixNano = .error (.invalidValue m.name) := by
  have hlabels : ∀ name, labelsMapToSortedPromLabels name (tags.entries.foldl
      (fun labels tag => labels.insert tag.1 tag.2)
      (AList.singleton (ascii "is_custom") (ascii "true"))) =
        labelsMapToSortedPromLabels name (withCustom tags) := by
    intro name
    rw [labelsMapToSortedPromLabels, labelsMapToSortedPromLabels,
      sortedLabels_congr (lookup_rawLabels hcustom)]
  unfold buildRawSeries
  simp only [hlabels]
  cases ht : m.type with
  | counter =>
    rw [if_neg (Rat.not_le.mpr hrate)]
    cases hq : float64Quotient m.value m.sampleRate with
    | none => exact .inr ⟨rfl, rfl, rfl⟩
    | some value => exact .inl ⟨_, rfl, rfl⟩
  | other text => rw [ht] at htype; exact htype.elim
  | _ => exact .inl ⟨_, rfl, rfl⟩

theorem buildRawSeries_labels {m : Metric} {series : TimeSeries} {unixNano : Int}
    (htype : m.type.Supported) (hrate : 0 < m.sampleRate) (hcustom : ascii "is_custom" ∉ tags)
    (h : buildRawSeries m tags unixNano = .ok series) :
    series.labels = labelsMapToSortedPromLabels (normalizeMetricName m.name ++ rawSuffix m.type)
      (withCustom tags) := by
  rcases buildRawSeries_cases htype hrate hcustom unixNano with ⟨_, hs, hlabels⟩ | ⟨-, -, herror⟩
  · rw [hs] at h
    cases h
    exact hlabels
  · rw [herror] at h
    cases h

/-- What the limiter stores a series under. -/
def limiterIdentity (series : TimeSeries) : Bytes × Bytes :=
  (metricNameOf series, seriesFingerprint series)

theorem seriesFingerprint_eq (series : TimeSeries) :
    seriesFingerprint series = terminated 0xff (series.labels.map labelText) := by
  simp [seriesFingerprint, terminated, labelText, List.flatMap_map]

/-- **The identity of a series is that of one name and one map of labels.** -/
theorem limiterIdentity_inj {series series' : TimeSeries}
    (hs : series.labels = labelsMapToSortedPromLabels name labels)
    (hs' : series'.labels = labelsMapToSortedPromLabels name' labels') (hname : 0xff ∉ name)
    (hname' : 0xff ∉ name') (hl : Clean labels) (hl' : Clean labels') :
    limiterIdentity series = limiterIdentity series' ↔
      name = name' ∧ ∀ k, labels.lookup k = labels'.lookup k := by
  have hclean : ∀ {name : Bytes} {labels : Labels}, 0xff ∉ name → Clean labels →
      ∀ e ∈ labelsMapToSortedPromLabels name labels, 61 ∉ e.1 ∧ 0xff ∉ labelText e := by
    intro name labels hname hl
    refine List.forall_mem_cons.mpr ⟨⟨by simp only; decide, ?_⟩, hl.sortedLabels⟩
    rw [labelText, List.mem_append, List.mem_cons]
    rintro (h | h | h)
    · exact (show (0xff : UInt8) ∉ ascii "__name__" by decide) h
    · exact absurd h (by decide)
    · exact hname h
  have h := hclean hname hl
  have h' := hclean hname' hl'
  rw [limiterIdentity, limiterIdentity, Prod.mk.injEq, seriesFingerprint_eq, seriesFingerprint_eq,
    metricNameOf, metricNameOf, hs, hs']
  constructor
  · rintro ⟨_, heq⟩
    have htexts := terminated_inj (List.forall_mem_map.mpr fun e he => (h e he).2)
      (List.forall_mem_map.mpr fun e he => (h' e he).2) heq
    have hlabels := map_labelText_inj (fun e he => (h e he).1) (fun e he => (h' e he).1) htexts
    rw [labelsMapToSortedPromLabels, labelsMapToSortedPromLabels, List.cons.injEq,
      Prod.mk.injEq] at hlabels
    exact ⟨hlabels.1.2, lookup_of_sortedLabels hlabels.2⟩
  · rintro ⟨rfl, hlookup⟩
    rw [labelsMapToSortedPromLabels, labelsMapToSortedPromLabels, sortedLabels_congr hlookup]
    exact ⟨rfl, rfl⟩

/-! ## Agreement -/

theorem rawName_no_separator (h : type.Supported) (name : Bytes) :
    0xff ∉ normalizeMetricName name ++ rawSuffix type := by
  have hsuffix : 0xff ∉ rawSuffix type := by
    cases type with
    | other text => exact h.elim
    | _ => decide
  exact fun hmem => (List.mem_append.mp hmem).elim (normalizeMetricName_no_separator name) hsuffix

theorem withCustom_inj {tags' : Labels} (h : ascii "is_custom" ∉ tags)
    (h' : ascii "is_custom" ∉ tags') :
    (∀ k, (withCustom tags).lookup k = (withCustom tags').lookup k) ↔
      ∀ k, tags.lookup k = tags'.lookup k := by
  refine forall_congr' fun k => ?_
  by_cases hk : k = ascii "is_custom"
  · subst hk
    simp only [withCustom, AList.lookup_insert, AList.lookup_eq_none.mpr h,
      AList.lookup_eq_none.mpr h']
  · simp only [withCustom, AList.lookup_insert_ne hk]

/-- **The limiter and the aggregator agree on identity.** Two metrics of the parser are one series
for each of them if and only if they have the same type, the same normalized name and the same
tags. The limiter sees the metrics whose series are built: all but counters whose quotient is not
finite. -/
theorem identity_agrees (parseFloat : Bytes → Option ℚ) (blocklistCSV : Bytes)
    (maxTags maxKeyLength maxValueLength : Int) {line line' : Bytes} {now now' limit limit' : Int}
    {m m' : Metric} (h : parseLine parseFloat line now limit = .ok m)
    (h' : parseLine parseFloat line' now' limit' = .ok m') :
    let policy := newTagPolicy blocklistCSV maxTags maxKeyLength maxValueLength
    let tags := (policy.apply m.tags).1
    let tags' := (policy.apply m'.tags).1
    ((∃ series, buildRawSeries m tags now = .ok series) ∨
      m.type = .counter ∧ float64Quotient m.value m.sampleRate = none) ∧
    (∀ series series', buildRawSeries m tags now = .ok series →
      buildRawSeries m' tags' now' = .ok series' →
      (limiterIdentity series = limiterIdentity series' ↔
        m.aggregationKey tags = m'.aggregationKey tags')) ∧
    (m.aggregationKey tags = m'.aggregationKey tags' ↔
      m.type = m'.type ∧ normalizeMetricName m.name = normalizeMetricName m'.name ∧
        ∀ k, tags.lookup k = tags'.lookup k) := by
  intro policy tags tags'
  have ht := (parseLine_ok h).supported
  have ht' := (parseLine_ok h').supported
  have hrate := (parseLine_sampleRate h).1
  have hrate' := (parseLine_sampleRate h').1
  have hcustom : ascii "is_custom" ∉ tags := apply_not_reserved _ _ _ _ _ (by decide)
  have hcustom' : ascii "is_custom" ∉ tags' := apply_not_reserved _ _ _ _ _ (by decide)
  have hclean : Clean (withCustom tags) := (clean_apply policy m.tags).withCustom
  have hclean' : Clean (withCustom tags') := (clean_apply policy m'.tags).withCustom
  have hkey := aggregationKey_inj (normalizeMetricName_no_separator m.name)
    (normalizeMetricName_no_separator m'.name) ht ht' hclean hclean'
  refine ⟨?_, fun series series' hs hs' => ?_, ?_⟩
  · exact (buildRawSeries_cases ht hrate hcustom now).imp (fun ⟨series, hs, _⟩ => ⟨series, hs⟩)
      fun ⟨hcounter, hquotient, _⟩ => ⟨hcounter, hquotient⟩
  · have hidentity := limiterIdentity_inj (buildRawSeries_labels ht hrate hcustom hs)
      (buildRawSeries_labels ht' hrate' hcustom' hs') (rawName_no_separator ht m.name)
      (rawName_no_separator ht' m'.name) hclean hclean'
    rw [Metric.aggregationKey, Metric.aggregationKey, hkey, hidentity, ← and_assoc]
    refine and_congr_left fun _ => ⟨append_rawSuffix_inj ht ht', ?_⟩
    rintro ⟨htype, hname⟩
    rw [htype, hname]
  · rw [Metric.aggregationKey, Metric.aggregationKey, hkey, withCustom_inj hcustom hcustom']

/-- A counter with a tag whose value is not well formed and looks like two tags. -/
def sampleLine (name : String) : Bytes :=
  ascii name ++ ascii ":1|c|#k:v" ++ [0xff] ++ ascii "j=w"

def sampleMetric (name : String) : Metric :=
  ⟨ascii name, .counter, 1, [], false, 1, AList.singleton (ascii "k")
    (ascii "v" ++ [0xEF, 0xBF, 0xBD] ++ ascii "j=w"), some 5⟩

theorem identity_agrees_small :
    let tags := ((newTagPolicy [] 10 100 100).apply (sampleMetric "a.b").tags).1
    parseLine (fun _ => some 1) (sampleLine "a.b") 5 100 = .ok (sampleMetric "a.b") ∧
    parseLine (fun _ => some 1) (sampleLine "A_b") 5 100 = .ok (sampleMetric "A_b") ∧
    ∃ series series', buildRawSeries (sampleMetric "a.b") tags 5 = .ok series ∧
      buildRawSeries (sampleMetric "A_b") tags 5 = .ok series' ∧
      limiterIdentity series = limiterIdentity series' := by
  have h : parseLine (fun _ => some 1) (sampleLine "a.b") 5 100 = .ok (sampleMetric "a.b") := rfl
  have h' : parseLine (fun _ => some 1) (sampleLine "A_b") 5 100 = .ok (sampleMetric "A_b") := rfl
  have hfinite : float64Quotient 1 1 = some 1 := by decide +kernel
  obtain ⟨hbuilt, hiff, hkey⟩ := identity_agrees (fun _ => some 1) [] 10 100 100 h h'
  obtain ⟨hbuilt', -, -⟩ := identity_agrees (fun _ => some 1) [] 10 100 100 h' h
  obtain ⟨series, hs⟩ := hbuilt.resolve_right fun hnone => nomatch hfinite ▸ hnone.2
  obtain ⟨series', hs'⟩ := hbuilt'.resolve_right fun hnone => nomatch hfinite ▸ hnone.2
  refine ⟨h, h', series, series', hs, hs',
    (hiff _ _ hs hs').mpr (hkey.mpr ⟨rfl, ?_, fun _ => rfl⟩)⟩
  decide +kernel

/-- A counter that is accepted, and whose series is not built. -/
example : buildRawSeries ⟨ascii "a", .counter, 10 ^ 200 * 10 ^ 108, [], false, 1 / 1000, ∅, some 5⟩
    ∅ 5 = .error (.invalidValue (ascii "a")) := by
  decide +kernel

end Dogstatsd
