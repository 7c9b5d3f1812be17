import NodeAgent.Infra.Delimited
import NodeAgent.Dogstatsd.Parser.Tags

/-!
# Lines and metrics

A metric is written as `name:value|type`, followed by sections for the sample rate and the tags and
by extensions that the agent does not know, and parsing the line gives the metric again.

The parser trims at every level. Trimming the line shortens only the last part, so every part is
trimmed to the same token as before (`trimParts_trimRightSpace`).

* `parseLine_render` — parsing the line of a metric gives it back
-/

namespace Dogstatsd

open Infra

/-! ## What is written -/

inductive Section where
  | rate (token : Bytes) (rate : ℚ)
  | tags (tags : List (Bytes × Bytes))
  /-- an extension that is ignored -/
  | extension (text : Bytes)

namespace Section

def renderTag (tag : Bytes × Bytes) : Bytes := tag.1 ++ 58 :: tag.2

def render : Section → Bytes
  | .rate token _ => 64 :: token
  | .tags list => 35 :: [44].intercalate (list.map renderTag)
  | .extension text => text

def rate? : Section → Option ℚ
  | .rate _ r => some r
  | _ => none

def tags? : Section → Option (List (Bytes × Bytes))
  | .tags list => some list
  | _ => none

end Section

structure WireMetric where
  name : Bytes
  type : MetricType
  /-- the number, or the member of a set -/
  token : Bytes
  /-- the number that the token stands for -/
  value : ℚ
  sections : List Section

namespace WireMetric

/-- The parts between `|`. -/
def parts (w : WireMetric) : List Bytes := w.token :: w.type.text :: w.sections.map Section.render

def render (w : WireMetric) : Bytes := w.name ++ 58 :: [124].intercalate w.parts

def rates (sections : List Section) : List ℚ := sections.filterMap Section.rate?

def tagLists (sections : List Section) : List (List (Bytes × Bytes)) :=
  sections.filterMap Section.tags?

def sampleRate (w : WireMetric) : ℚ := (rates w.sections).head?.getD 1

/-- A `+` or `-` before the number. -/
def signed (w : WireMetric) : Bool :=
  hasPrefix w.token (ascii "+") || hasPrefix w.token (ascii "-")

def metric (w : WireMetric) (now : Int) : Metric where
  name := w.name
  type := w.type
  value := if w.type = .set then 0 else w.value
  setValue := if w.type = .set then w.token else []
  relative := w.type = .gauge && w.signed
  sampleRate := w.sampleRate
  tags := ((tagLists w.sections).head?.map labelsOf).getD ∅
  receivedAt := some now

end WireMetric

/-! ## What may be written -/

section

variable (parseFloat : Bytes → Option ℚ)

/-- A key that is not changed by the parser, and a value that is not. -/
structure WireTag (tag : Bytes × Bytes) : Prop where
  fixed : normalizeLabelKey tag.1 = tag.1
  named : tag.1 ≠ ascii "label"
  valid : ValidUTF8 tag.2
  trimmed : trimSpaceBytes tag.2 = tag.2
  nonempty : tag.2 ≠ []
  comma : 44 ∉ tag.2
  bar : 124 ∉ tag.2

def Section.Valid : Section → Prop
  | .rate token r => parseFloat token = some r ∧ (0 < r ∧ r ≤ 1) ∧
      124 ∉ token ∧ trimRightSpace token = token
  | .tags list => (list.map Prod.fst).Nodup ∧ ∀ tag ∈ list, WireTag tag
  | .extension text => 124 ∉ text ∧
      ∀ first rest, trimSpaceBytes text = first :: rest → first ≠ 64 ∧ first ≠ 35

/-- A metric that can be written, when names may have `limit` bytes. -/
structure WireMetric.Valid (limit : Int) (w : WireMetric) : Prop where
  nameNonempty : w.name ≠ []
  nameTrimmed : trimSpaceBytes w.name = w.name
  nameColon : 58 ∉ w.name
  nameLength : w.name.length ≤ limit
  supported : w.type.Supported
  tokenNonempty : w.token ≠ []
  tokenTrimmed : trimSpaceBytes w.token = w.token
  tokenBar : 124 ∉ w.token
  numeric : w.type ≠ .set → parseFloat w.token = some w.value
  sections : ∀ s ∈ w.sections, s.Valid parseFloat
  oneRate : (rates w.sections).length ≤ 1
  oneTags : (tagLists w.sections).length ≤ 1
  sampled : w.type = .gauge ∨ w.type = .set → w.sampleRate = 1

variable {parseFloat}

/-! ## Splitting -/

theorem splitTwo_append_cons {sep : UInt8} {before : Bytes} (h : sep ∉ before) (after : Bytes) :
    splitTwo sep (before ++ sep :: after) = (before, some after) := by
  have hne : ∀ b ∈ before, decide (b ≠ sep) = true := fun b hb =>
    decide_eq_true fun heq => h (heq ▸ hb)
  unfold splitTwo
  rw [List.dropWhile_append_of_pos hne, List.takeWhile_append_of_pos hne]
  simp

/-- The trimmed parts between `|`. -/
def trimParts (body : Bytes) : List Bytes := (body.splitOn 124).map trimSpaceBytes

theorem trimParts_trimRightSpace {parts : List Bytes} (hne : parts ≠ [])
    (h : ∀ part ∈ parts, 124 ∉ part) :
    trimParts (trimRightSpace ([124].intercalate parts)) = parts.map trimSpaceBytes := by
  obtain ⟨before, last, rfl⟩ := (List.eq_nil_or_concat' parts).resolve_left hne
  rw [trimRightSpace_intercalate (by decide) (by decide), trimParts, List.splitOn_intercalate 124,
    List.map_append, List.map_append, List.map_singleton, List.map_singleton,
    trimSpaceBytes_trimRightSpace]
  · intro part hpart
    rcases List.mem_append.mp hpart with hpart | hpart
    · exact h part (List.mem_append_left _ hpart)
    · rw [List.mem_singleton.mp hpart]
      exact fun hmem => h last (by simp) (trimRightSpace_subset last hmem)
  · simp

/-! ## The tags -/

namespace WireTag

variable {tag : Bytes × Bytes}

theorem normalKey (h : WireTag tag) : NormalKey tag.1 := h.fixed ▸ normalKey_normalizeLabelKey tag.1

theorem notMem_key (h : WireTag tag) {b : UInt8} (hb : isLabelByte b = false) : b ∉ tag.1 := by
  intro hmem
  rw [h.normalKey.bytes b hmem] at hb
  cases hb

theorem notMem_render (h : WireTag tag) {b : UInt8} (hb : isLabelByte b = false) (hcolon : b ≠ 58)
    (hvalue : b ∉ tag.2) : b ∉ Section.renderTag tag := by
  rw [Section.renderTag, List.mem_append, List.mem_cons]
  rintro (hmem | rfl | hmem)
  · exact h.notMem_key hb hmem
  · exact hcolon rfl
  · exact hvalue hmem

theorem trimLeft_key (h : WireTag tag) : trimLeftSpace tag.1 = tag.1 := by
  refine trimLeftSpace_of_no_space fun e he => ?_
  rw [segments_of_ascii h.normalKey.ascii] at he
  obtain ⟨b, hb, rfl⟩ := List.mem_map.mp he
  exact isSpace_name (isNameByte_of_label (h.normalKey.bytes b hb))

theorem trimSpaceBytes_render (h : WireTag tag) :
    trimSpaceBytes (Section.renderTag tag) = Section.renderTag tag := by
  rw [Section.renderTag, trimSpaceBytes_append_ascii (by decide) (by decide), h.trimLeft_key,
    (trim_sides h.trimmed).2]

theorem trimRightSpace_render (h : WireTag tag) :
    trimRightSpace (Section.renderTag tag) = Section.renderTag tag :=
  (trim_sides h.trimSpaceBytes_render).2

theorem pieceTag_render (h : WireTag tag) : pieceTag (Section.renderTag tag) = tag := by
  have hsplit : splitTwo 58 (Section.renderTag tag) = (tag.1, some tag.2) :=
    splitTwo_append_cons (h.notMem_key (by decide)) tag.2
  unfold pieceTag labelName pieceKey labelValueOf
  rw [hsplit]
  exact Prod.ext h.fixed (sanitizeLabelValue_of_clean h.valid h.trimmed h.nonempty)

end WireTag

theorem tagPieces_render {list : List (Bytes × Bytes)} (h : ∀ tag ∈ list, WireTag tag) :
    tagPieces ([44].intercalate (list.map Section.renderTag)) = list.map Section.renderTag := by
  have hcomma : ∀ piece ∈ list.map Section.renderTag, 44 ∉ piece := by
    intro piece hpiece
    obtain ⟨tag, htag, rfl⟩ := List.mem_map.mp hpiece
    exact (h tag htag).notMem_render (by decide) (by decide) (h tag htag).comma
  have htrimmed : (list.map Section.renderTag).map trimSpaceBytes = list.map Section.renderTag := by
    rw [List.map_map]
    exact List.map_congr_left fun tag htag => (h tag htag).trimSpaceBytes_render
  have hnonempty : ∀ piece ∈ list.map Section.renderTag, decide (piece ≠ []) = true := by
    intro piece hpiece
    obtain ⟨tag, -, rfl⟩ := List.mem_map.mp hpiece
    simp [Section.renderTag]
  by_cases hnil : list.map Section.renderTag = []
  · rw [hnil]
    rfl
  · rw [tagPieces, piecesOf, List.splitOn_intercalate 44 hcomma hnil, htrimmed,
      List.filter_eq_self.mpr hnonempty]

theorem parseTags_render {list : List (Bytes × Bytes)} (hnodup : (list.map Prod.fst).Nodup)
    (h : ∀ tag ∈ list, WireTag tag) :
    parseTags ([44].intercalate (list.map Section.renderTag)) = .ok (labelsOf list) := by
  have htags : (list.map Section.renderTag).map pieceTag = list := by
    rw [List.map_map]
    exact (List.map_congr_left fun tag htag => (h tag htag).pieceTag_render).trans
      (List.map_id' list)
  have hnames : (list.map Section.renderTag).map labelName = list.map Prod.fst := by
    rw [← map_fst_pieceTag, htags]
  rw [parseTags_ok_iff, tagPieces_render h, htags, hnames]
  refine ⟨fun piece hpiece => ?_, hnodup, rfl⟩
  obtain ⟨tag, htag, rfl⟩ := List.mem_map.mp hpiece
  have hname : labelName (Section.renderTag tag) = tag.1 :=
    congrArg Prod.fst (h tag htag).pieceTag_render
  rw [hname]
  exact (h tag htag).named

/-! ## The sections -/

theorem Section.Valid.bar {s : Section} (h : s.Valid parseFloat) : 124 ∉ s.render := by
  cases s with
  | rate token r => simpa [render] using h.2.2.1
  | extension text => exact h.1
  | tags list =>
    intro hmem
    rcases List.mem_cons.mp hmem with heq | hmem
    · cases heq
    rcases mem_intercalate hmem with heq | ⟨piece, hpiece, hmem⟩
    · cases heq
    obtain ⟨tag, htag, rfl⟩ := List.mem_map.mp hpiece
    exact (h.2 tag htag).notMem_render (by decide) (by decide) (h.2 tag htag).bar hmem

theorem Section.Valid.trim_rate {token : Bytes} {r : ℚ} (h : (rate token r).Valid parseFloat) :
    trimSpaceBytes (rate token r).render = 64 :: token := by
  have htrim : trimSpaceBytes ([] ++ 64 :: token) =
      trimLeftSpace [] ++ 64 :: trimRightSpace token :=
    trimSpaceBytes_append_ascii (by decide) (by decide) [] token
  rw [h.2.2.2] at htrim
  exact htrim

theorem Section.Valid.trim_tags {list : List (Bytes × Bytes)} (h : (tags list).Valid parseFloat) :
    trimSpaceBytes (tags list).render = (tags list).render := by
  have htrim : trimSpaceBytes ([] ++ 35 :: [44].intercalate (list.map renderTag)) =
      trimLeftSpace [] ++ 35 :: trimRightSpace ([44].intercalate (list.map renderTag)) :=
    trimSpaceBytes_append_ascii (by decide) (by decide) [] _
  refine htrim.trans (congrArg (35 :: ·) ?_)
  rcases List.eq_nil_or_concat' list with rfl | ⟨before, last, rfl⟩
  · rfl
  · have hlast := (h.2 last (by simp)).trimRightSpace_render
    rw [List.map_append, List.map_singleton, trimRightSpace_intercalate (by decide) (by decide),
      hlast]

section

variable {m : Metric} {seenRate seenTags : Bool} {rawToken token : Bytes} (rest : List Bytes)

theorem parseSections_rate {r : ℚ} (h : trimSpaceBytes rawToken = 64 :: token)
    (hparse : parseFloat token = some r) (hrange : 0 < r ∧ r ≤ 1) :
    parseSections parseFloat m false seenTags (rawToken :: rest) =
      parseSections parseFloat { m with sampleRate := r } true seenTags rest := by
  rw [parseSections, h]
  simp only [if_true, hparse]
  rw [if_neg Bool.false_ne_true, if_neg]
  exact fun h => h.elim (Rat.not_le.mpr hrange.1) (Rat.not_lt.mpr hrange.2)

theorem parseSections_tags {labels : Labels} (h : trimSpaceBytes rawToken = 35 :: token)
    (hparse : parseTags token = .ok labels) :
    parseSections parseFloat m seenRate false (rawToken :: rest) =
      parseSections parseFloat { m with tags := labels } seenRate true rest := by
  rw [parseSections, h]
  simp only [hparse]
  rfl

theorem parseSections_other
    (h : ∀ first token, trimSpaceBytes rawToken = first :: token → first ≠ 64 ∧ first ≠ 35) :
    parseSections parseFloat m seenRate seenTags (rawToken :: rest) =
      parseSections parseFloat m seenRate seenTags rest := by
  rw [parseSections]
  split
  · rfl
  · next first token htrim =>
    rw [if_neg (h first token htrim).1, if_neg (h first token htrim).2]

end

/-- **The sections are read one after another.** -/
theorem parseSections_render : ∀ {sections : List Section} {tokens : List Bytes} {m : Metric}
    {seenRate seenTags : Bool},
    tokens.map trimSpaceBytes = sections.map (fun s => trimSpaceBytes s.render) →
    (∀ s ∈ sections, s.Valid parseFloat) →
    seenRate.toNat + (WireMetric.rates sections).length ≤ 1 →
    seenTags.toNat + (WireMetric.tagLists sections).length ≤ 1 →
    parseSections parseFloat m seenRate seenTags tokens = .ok { m with
      sampleRate := (WireMetric.rates sections).head?.getD m.sampleRate
      tags := ((WireMetric.tagLists sections).head?.map labelsOf).getD m.tags }
  | [], tokens, m, seenRate, seenTags, htokens, _, _, _ => by
    rw [List.map_nil, List.map_eq_nil_iff] at htokens
    subst htokens
    rfl
  | s :: sections, [], m, seenRate, seenTags, htokens, hvalid, hrates, htags => by cases htokens
  | s :: sections, rawToken :: tokens, m, seenRate, seenTags, htokens, hvalid, hrates, htags => by
    rw [List.map_cons, List.map_cons, List.cons.injEq] at htokens
    obtain ⟨htoken, htokens⟩ := htokens
    rw [List.forall_mem_cons] at hvalid
    obtain ⟨hs, hvalid⟩ := hvalid
    cases s with
    | rate token r =>
      -- this is the only rate
      have hlength : (WireMetric.rates (.rate token r :: sections)).length =
          (WireMetric.rates sections).length + 1 := rfl
      have hunseen : seenRate = false := by
        cases seenRate with
        | false => rfl
        | true => rw [hlength, Bool.toNat_true] at hrates; omega
      have hnone : WireMetric.rates sections = [] := List.length_eq_zero_iff.mp (by omega)
      subst hunseen
      rw [parseSections_rate tokens (htoken.trans hs.trim_rate) hs.1 hs.2.1,
        parseSections_render htokens hvalid (by rw [hnone]; decide) htags, hnone]
      rfl
    | tags list =>
      have hlength : (WireMetric.tagLists (.tags list :: sections)).length =
          (WireMetric.tagLists sections).length + 1 := rfl
      have hunseen : seenTags = false := by
        cases seenTags with
        | false => rfl
        | true => rw [hlength, Bool.toNat_true] at htags; omega
      have hnone : WireMetric.tagLists sections = [] := List.length_eq_zero_iff.mp (by omega)
      subst hunseen
      rw [parseSections_tags tokens (htoken.trans hs.trim_tags) (parseTags_render hs.1 hs.2),
        parseSections_render htokens hvalid hrates (by rw [hnone]; decide), hnone]
      rfl
    | extension text =>
      have hother : ∀ first rest, trimSpaceBytes rawToken = first :: rest →
          first ≠ 64 ∧ first ≠ 35 := fun first rest h => hs.2 first rest (htoken.symm.trans h)
      rw [parseSections_other tokens hother, parseSections_render htokens hvalid hrates htags]
      rfl

/-! ## The line -/

theorem MetricType.ofText_text {type : MetricType} (h : type.Supported) :
    MetricType.ofText type.text = type := by
  cases type with
  | other text => exact h.elim
  | _ => decide +kernel

theorem MetricType.trim_text {type : MetricType} (h : type.Supported) :
    trimSpaceBytes type.text = type.text ∧ type.text ≠ [] ∧ 124 ∉ type.text := by
  cases type with
  | other text => exact h.elim
  | _ => decide +kernel

namespace WireMetric

variable {limit : Int} {w : WireMetric}

theorem Valid.parts_bar (h : w.Valid parseFloat limit) : ∀ part ∈ w.parts, 124 ∉ part := by
  rw [parts, List.forall_mem_cons, List.forall_mem_cons]
  refine ⟨h.tokenBar, (MetricType.trim_text h.supported).2.2, fun part hpart => ?_⟩
  obtain ⟨s, hs, rfl⟩ := List.mem_map.mp hpart
  exact (h.sections s hs).bar

theorem Valid.parseValue_text (h : w.Valid parseFloat limit) (now : Int) :
    parseValue parseFloat ⟨w.name, .counter, 0, [], false, 1, ∅, some now⟩ w.token w.type.text =
      .ok { w.metric now with sampleRate := 1, tags := ∅ } := by
  rw [parseValue, MetricType.ofText_text h.supported]
  unfold metric
  cases htype : w.type with
  | other text =>
    have hsupported := h.supported
    rw [htype] at hsupported
    exact hsupported.elim
  | set => rfl
  | _ =>
    have hnumeric := h.numeric (by rw [htype]; exact fun heq => by cases heq)
    rw [hnumeric]
    rfl

theorem Valid.parseBody_render (h : w.Valid parseFloat limit) {body : Bytes}
    (hbody : trimParts body = w.parts.map trimSpaceBytes) (now : Int) :
    parseBody parseFloat w.name body now = .ok (w.metric now) := by
  obtain ⟨htype, htypeNe, -⟩ := MetricType.trim_text h.supported
  rw [trimParts, parts, List.map_cons, List.map_cons, h.tokenTrimmed, htype, List.map_map] at hbody
  unfold parseBody
  split
  · next rawValue rawType tokens hsplit =>
    rw [hsplit, List.map_cons, List.map_cons, List.cons.injEq, List.cons.injEq] at hbody
    obtain ⟨hvalue, htype, htokens⟩ := hbody
    have hsections : parseSections parseFloat { w.metric now with sampleRate := 1, tags := ∅ }
        false false tokens = .ok (w.metric now) :=
      parseSections_render htokens h.sections (by simpa using h.oneRate) (by simpa using h.oneTags)
    simp only [hvalue, htype]
    rw [if_neg h.tokenNonempty, if_neg htypeNe, h.parseValue_text]
    simp only [bind, Except.bind, hsections]
    exact if_neg fun hsampled => hsampled.1 (h.sampled hsampled.2)
  · next hshort =>
    have hlength := congrArg List.length hbody
    match hparts : body.splitOn 124 with
    | [] => rw [hparts] at hlength; cases hlength
    | [_] => rw [hparts] at hlength; cases hlength
    | a :: b :: rest => exact absurd hparts (hshort a b rest)

end WireMetric

/-- **A metric that is written as a line is read again as it was.** -/
theorem parseLine_render {w : WireMetric} {limit : Int} (h : w.Valid parseFloat limit) (now : Int) :
    parseLine parseFloat w.render now limit = .ok (w.metric now) := by
  have hparts : w.parts ≠ [] := by simp [WireMetric.parts]
  have htrim : trimSpaceBytes w.render =
      w.name ++ 58 :: trimRightSpace ([124].intercalate w.parts) := by
    rw [WireMetric.render, trimSpaceBytes_append_ascii (by decide) (by decide),
      (trim_sides h.nameTrimmed).1]
  unfold parseLine
  simp only [htrim, splitTwo_append_cons h.nameColon, h.nameTrimmed]
  rw [if_neg (by simp), if_neg h.nameNonempty, if_neg (not_lt.mpr h.nameLength)]
  exact h.parseBody_render (trimParts_trimRightSpace hparts h.parts_bar) now

/-- `load:+0.5|g|c:x |#env:prod,team:a:b|@1` -/
def gaugeLine : WireMetric where
  name := ascii "load"
  type := .gauge
  token := ascii "+0.5"
  value := 1 / 2
  sections := [.extension (ascii "c:x "),
    .tags [(ascii "env", ascii "prod"), (ascii "team", ascii "a:b")], .rate (ascii "1") 1]

theorem parseLine_render_gauge :
    parseLine (fun token => if token = ascii "1" then some 1 else some (1 / 2))
      (ascii "load:+0.5|g|c:x |#env:prod,team:a:b|@1") 7 200 = .ok (gaugeLine.metric 7) := by
  have htag : ∀ tag ∈ [(ascii "env", ascii "prod"), (ascii "team", ascii "a:b")], WireTag tag := by
    simp only [List.forall_mem_cons]
    refine ⟨⟨?_, ?_, ?_, ?_, ?_, ?_, ?_⟩, ⟨?_, ?_, ?_, ?_, ?_, ?_, ?_⟩, fun _ h => by cases h⟩
    all_goals (try unfold ValidUTF8 WellFormed); decide +kernel
  refine parseLine_render (w := gaugeLine) ⟨?_, ?_, ?_, ?_, trivial, ?_, ?_, ?_, fun _ => ?_, ?_,
    ?_, ?_, fun _ => ?_⟩ 7
  case refine_9 =>
    simp only [gaugeLine, List.forall_mem_cons]
    refine ⟨⟨by decide +kernel, fun first rest h => ?_⟩, ⟨by decide +kernel, htag⟩,
      ⟨rfl, by decide, by decide +kernel, by decide +kernel⟩, fun _ h => by cases h⟩
    have htrim : trimSpaceBytes (ascii "c:x ") = ascii "c:x" := by decide +kernel
    rw [htrim] at h
    cases h
    decide
  all_goals decide +kernel

end

end Dogstatsd
