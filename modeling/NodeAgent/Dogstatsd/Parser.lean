import NodeAgent.Dogstatsd.Aggregator.Window

/-!
# Metric lines (`dogstatsd/parser.go`)

A line has the form `name:value|type`, and sections for the sample rate and the tags may follow.

* `parseLine_ok` — what is accepted has one of the five types, and the time it was received
* `parseLine_receivedAt`, `parseLine_limit` — what the time and the limit for the name change
-/

namespace Dogstatsd

open Infra

variable {m : Metric} {line : Bytes}

inductive ParseError where
  /-- `empty line` -/
  | emptyLine
  /-- `invalid metric format: missing ':'` -/
  | missingColon
  /-- `metric name is empty` -/
  | nameEmpty
  /-- `metric name exceeds %d bytes` -/
  | nameTooLong (limit : Int)
  /-- `invalid metric format: expected value|type` -/
  | missingType
  /-- `metric value is empty` -/
  | valueEmpty
  /-- `metric type is empty` -/
  | typeEmpty
  /-- `invalid numeric value %q` -/
  | invalidValue (token : Bytes)
  /-- `unsupported metric type %q` -/
  | unsupportedType (token : Bytes)
  /-- `duplicate sample-rate section` -/
  | duplicateSampleRate
  /-- `sample rate must be greater than 0 and no greater than 1` -/
  | sampleRateRange
  /-- `duplicate tag section` -/
  | duplicateTags
  /-- `invalid empty tag key in %q` -/
  | emptyTagKey (piece : Bytes)
  /-- `duplicate or normalized-colliding tag key %q` -/
  | tagCollision (key : Bytes)
  /-- `sample rate is not supported for metric type %q` -/
  | sampleRateUnsupported (type : MetricType)
  deriving DecidableEq

/-- `strings.SplitN(s, sep, 2)`. The second part is missing when there is no separator. -/
def splitTwo (sep : UInt8) (s : Bytes) : Bytes × Option Bytes :=
  match s.dropWhile (· ≠ sep) with
  | [] => (s, none)
  | _ :: rest => (s.takeWhile (· ≠ sep), some rest)

def MetricType.ofText (text : Bytes) : MetricType :=
  if text = ascii "c" then .counter
  else if text = ascii "g" then .gauge
  else if text = ascii "ms" then .timer
  else if text = ascii "h" then .histogram
  else if text = ascii "s" then .set
  else .other text

/-! ## Tags -/

/-- The loop of `parseTags` over the parts between commas. -/
def parseTagParts (tags : Labels) : List Bytes → Except ParseError Labels
  | [] => .ok tags
  | part :: parts =>
    let piece := trimSpaceBytes part
    if piece = [] then parseTagParts tags parts
    else
      let (rawKey, rawValue) := splitTwo 58 piece
      let key := normalizeLabelKey rawKey
      if key = [] ∨ key = ascii "label" then .error (.emptyTagKey piece)
      else
        let value := match rawValue with
          | some v => sanitizeLabelValue v
          | none => ascii "true"
        if key ∈ tags then .error (.tagCollision key)
        else parseTagParts (tags.insert key value) parts

def parseTags (raw : Bytes) : Except ParseError Labels :=
  if trimSpaceBytes raw = [] then .ok ∅ else parseTagParts ∅ (raw.splitOn 44)

/-! ## Lines -/

section

-- `strconv.ParseFloat`, without the results that are no numbers
variable (parseFloat : Bytes → Option ℚ)

def parseValue (m : Metric) (valueToken typeToken : Bytes) : Except ParseError Metric :=
  match MetricType.ofText typeToken with
  | .set => .ok { m with type := .set, setValue := valueToken }
  | .other _ => .error (.unsupportedType typeToken)
  | type =>
    match parseFloat valueToken with
    | none => .error (.invalidValue valueToken)
    | some v =>
      .ok { m with
        type
        value := v
        relative := type = .gauge && (hasPrefix valueToken (ascii "+") ||
          hasPrefix valueToken (ascii "-")) }

/-- The loop of `parseLine` over the sections after the type. -/
def parseSections (m : Metric) (seenSampleRate seenTags : Bool) :
    List Bytes → Except ParseError Metric
  | [] => .ok m
  | rawToken :: rest =>
    match trimSpaceBytes rawToken with
    | [] => parseSections m seenSampleRate seenTags rest
    | first :: token =>
      if first = 64 then
        if seenSampleRate then .error .duplicateSampleRate
        else
          match parseFloat token with
          | none => .error .sampleRateRange
          | some sr =>
            if sr ≤ 0 ∨ sr > 1 then .error .sampleRateRange
            else parseSections { m with sampleRate := sr } true seenTags rest
      else if first = 35 then
        if seenTags then .error .duplicateTags
        else
          match parseTags token with
          | .error e => .error e
          | .ok tags => parseSections { m with tags } seenSampleRate true rest
      else parseSections m seenSampleRate seenTags rest

/-- The part of `parseLine` after the name. -/
def parseBody (name body : Bytes) (now : Int) : Except ParseError Metric :=
  match body.splitOn 124 with
  | rawValue :: rawType :: sections =>
    let valueToken := trimSpaceBytes rawValue
    let typeToken := trimSpaceBytes rawType
    if valueToken = [] then .error .valueEmpty
    else if typeToken = [] then .error .typeEmpty
    else do
      let m ← parseValue parseFloat ⟨name, .counter, 0, [], false, 1, ∅, some now⟩ valueToken
        typeToken
      let m ← parseSections parseFloat m false false sections
      if m.sampleRate ≠ 1 ∧ (m.type = .gauge ∨ m.type = .set) then
        .error (.sampleRateUnsupported m.type)
      else .ok m
  | _ => .error .missingType

def parseLine (line : Bytes) (now maxMetricNameLength : Int) : Except ParseError Metric :=
  let trimmed := trimSpaceBytes line
  if trimmed = [] then .error .emptyLine
  else
    match splitTwo 58 trimmed with
    | (_, none) => .error .missingColon
    | (rawName, some body) =>
      let name := trimSpaceBytes rawName
      if name = [] then .error .nameEmpty
      else if name.length > maxMetricNameLength then .error (.nameTooLong maxMetricNameLength)
      else parseBody parseFloat name body now

/-! ## What is accepted -/

variable {parseFloat}

/-- The metric of the parser: one of the five types, with the time it was received. -/
structure Parsed (now : Int) (m : Metric) : Prop where
  supported : m.type.Supported
  receivedAt : m.receivedAt = some now

theorem parseValue_ok {m' : Metric} {valueToken typeToken : Bytes}
    (h : parseValue parseFloat m valueToken typeToken = .ok m') :
    m'.type.Supported ∧ m'.receivedAt = m.receivedAt ∧ m'.name = m.name := by
  unfold parseValue at h
  split at h
  · cases h
    exact ⟨trivial, rfl, rfl⟩
  · cases h
  · rename_i type _ hother
    split at h
    · cases h
    · cases h
      refine ⟨?_, rfl, rfl⟩
      cases htype : MetricType.ofText typeToken with
      | other text => exact absurd htype (hother text)
      | _ => trivial

theorem parseSections_ok : ∀ {sections : List Bytes} {m m' : Metric} {seenRate seenTags : Bool},
    parseSections parseFloat m seenRate seenTags sections = .ok m' →
      m'.type = m.type ∧ m'.receivedAt = m.receivedAt ∧ m'.name = m.name
  | [], _, _, _, _, h => by
    cases h
    exact ⟨rfl, rfl, rfl⟩
  | rawToken :: rest, m, m', seenRate, seenTags, h => by
    unfold parseSections at h
    split at h
    · exact parseSections_ok h
    split at h
    · split at h
      · cases h
      split at h
      · cases h
      split at h
      · cases h
      · obtain ⟨htype, hreceived, hname⟩ := parseSections_ok h
        exact ⟨htype, hreceived, hname⟩
    split at h
    · split at h
      · cases h
      split at h
      · cases h
      · obtain ⟨htype, hreceived, hname⟩ := parseSections_ok h
        exact ⟨htype, hreceived, hname⟩
    · exact parseSections_ok h

theorem bind_eq_ok {α β : Type} {x : Except ParseError α} {f : α → Except ParseError β} {b : β}
    (h : (x >>= f) = .ok b) : ∃ a, x = .ok a ∧ f a = .ok b := by
  cases x with
  | error e => cases h
  | ok a => exact ⟨a, rfl, h⟩

theorem parseBody_cases {name body : Bytes} {now : Int}
    (h : parseBody parseFloat name body now = .ok m) : ∃ valueToken typeToken sections m₁,
      parseValue parseFloat ⟨name, .counter, 0, [], false, 1, ∅, some now⟩ valueToken typeToken =
        .ok m₁ ∧ parseSections parseFloat m₁ false false sections = .ok m := by
  unfold parseBody at h
  split at h
  · simp only at h
    split at h
    · cases h
    split at h
    · cases h
    obtain ⟨m₁, hvalue, h⟩ := bind_eq_ok h
    obtain ⟨m₂, hsections, h⟩ := bind_eq_ok h
    split at h
    · cases h
    · cases h
      exact ⟨_, _, _, m₁, hvalue, hsections⟩
  · cases h

theorem parseLine_cases {now limit : Int} (h : parseLine parseFloat line now limit = .ok m) :
    ∃ rawName body, splitTwo 58 (trimSpaceBytes line) = (rawName, some body) ∧
      parseBody parseFloat (trimSpaceBytes rawName) body now = .ok m := by
  unfold parseLine at h
  simp only at h
  split at h
  · cases h
  split at h
  · cases h
  next rawName body hsplit =>
  split at h
  · cases h
  split at h
  · cases h
  · exact ⟨rawName, body, hsplit, h⟩

theorem parseLine_ok {now limit : Int} (h : parseLine parseFloat line now limit = .ok m) :
    Parsed now m := by
  obtain ⟨rawName, body, -, hbody⟩ := parseLine_cases h
  obtain ⟨_, _, _, m₁, hvalue, hsections⟩ := parseBody_cases hbody
  obtain ⟨hsupported, hreceived, -⟩ := parseValue_ok hvalue
  obtain ⟨htype, hreceived', -⟩ := parseSections_ok hsections
  exact ⟨htype ▸ hsupported, hreceived'.trans hreceived⟩

/-- The name of the metric in a line: what stands before the first colon. -/
def metricName (line : Bytes) : Bytes := trimSpaceBytes (line.takeWhile (· ≠ 58))

theorem parseLine_name {now limit : Int} (h : parseLine parseFloat line now limit = .ok m) :
    m.name = metricName (trimSpaceBytes line) ∧ 58 ∈ trimSpaceBytes line := by
  obtain ⟨rawName, body, hsplit, hbody⟩ := parseLine_cases h
  obtain ⟨_, _, _, m₁, hvalue, hsections⟩ := parseBody_cases hbody
  have hname : m.name = trimSpaceBytes rawName :=
    (parseSections_ok hsections).2.2.trans (parseValue_ok hvalue).2.2
  unfold splitTwo at hsplit
  split at hsplit
  · cases hsplit
  · next c rest hdrop =>
    cases hsplit
    refine ⟨hname, ?_⟩
    have hmem : c ∈ (trimSpaceBytes line).dropWhile (· ≠ 58) := hdrop ▸ List.mem_cons_self
    have hcolon : c = 58 := by
      have := List.head?_dropWhile_not (fun b : UInt8 => decide (b ≠ 58)) (trimSpaceBytes line)
      rw [hdrop] at this
      simpa using this
    exact hcolon ▸ (List.dropWhile_suffix _).subset hmem

theorem parseValue_sampleRate {m' : Metric} {valueToken typeToken : Bytes}
    (h : parseValue parseFloat m valueToken typeToken = .ok m') : m'.sampleRate = m.sampleRate := by
  unfold parseValue at h
  split at h
  · cases h
    rfl
  · cases h
  · split at h
    · cases h
    · cases h
      rfl

theorem parseSections_sampleRate : ∀ {sections : List Bytes} {m m' : Metric}
    {seenRate seenTags : Bool}, parseSections parseFloat m seenRate seenTags sections = .ok m' →
      0 < m.sampleRate ∧ m.sampleRate ≤ 1 → 0 < m'.sampleRate ∧ m'.sampleRate ≤ 1
  | [], _, _, _, _, h, hm => by
    cases h
    exact hm
  | rawToken :: rest, m, m', seenRate, seenTags, h, hm => by
    unfold parseSections at h
    split at h
    · exact parseSections_sampleRate h hm
    split at h
    · split at h
      · cases h
      split at h
      · cases h
      split at h
      · cases h
      · next hrange =>
        obtain ⟨hpos, hle⟩ := not_or.mp hrange
        exact parseSections_sampleRate h ⟨Rat.not_le.mp hpos, Rat.not_lt.mp hle⟩
    split at h
    · split at h
      · cases h
      split at h
      · cases h
      · exact parseSections_sampleRate h hm
    · exact parseSections_sampleRate h hm

theorem parseLine_sampleRate {now limit : Int} (h : parseLine parseFloat line now limit = .ok m) :
    0 < m.sampleRate ∧ m.sampleRate ≤ 1 := by
  obtain ⟨rawName, body, -, hbody⟩ := parseLine_cases h
  obtain ⟨_, _, _, m₁, hvalue, hsections⟩ := parseBody_cases hbody
  refine parseSections_sampleRate hsections ?_
  rw [parseValue_sampleRate hvalue]
  show (0 : ℚ) < 1 ∧ (1 : ℚ) ≤ 1
  decide

/-! ## The time and the limit -/

def Metric.receivedAgain (now : Int) (m : Metric) : Metric := { m with receivedAt := some now }

theorem parseValue_receivedAt (now : Int) (m : Metric) (valueToken typeToken : Bytes) :
    parseValue parseFloat (m.receivedAgain now) valueToken typeToken =
      (parseValue parseFloat m valueToken typeToken).map (·.receivedAgain now) := by
  unfold parseValue
  split
  · rfl
  · rfl
  · cases parseFloat valueToken with
    | none => rfl
    | some v => rfl

theorem parseSections_receivedAt (now : Int) :
    ∀ (sections : List Bytes) (m : Metric) (seenRate seenTags : Bool),
      parseSections parseFloat (m.receivedAgain now) seenRate seenTags sections =
        (parseSections parseFloat m seenRate seenTags sections).map (·.receivedAgain now)
  | [], _, _, _ => rfl
  | rawToken :: rest, m, seenRate, seenTags => by
    unfold parseSections
    split
    · exact parseSections_receivedAt now rest m seenRate seenTags
    split
    · split
      · rfl
      split
      · rfl
      split
      · rfl
      · rename_i sr _ _
        exact parseSections_receivedAt now rest { m with sampleRate := sr } true seenTags
    split
    · split
      · rfl
      split
      · rfl
      · rename_i tags _
        exact parseSections_receivedAt now rest { m with tags } seenRate true
    · exact parseSections_receivedAt now rest m seenRate seenTags

theorem parseBody_receivedAt (name body : Bytes) (now now' : Int) :
    parseBody parseFloat name body now' =
      (parseBody parseFloat name body now).map (·.receivedAgain now') := by
  unfold parseBody
  split
  · rename_i rawValue rawType sections _
    simp only
    split
    · rfl
    split
    · rfl
    have hvalue : parseValue parseFloat ⟨name, .counter, 0, [], false, 1, ∅, some now'⟩
        (trimSpaceBytes rawValue) (trimSpaceBytes rawType) =
        (parseValue parseFloat ⟨name, .counter, 0, [], false, 1, ∅, some now⟩
          (trimSpaceBytes rawValue) (trimSpaceBytes rawType)).map (·.receivedAgain now') :=
      parseValue_receivedAt now' ⟨name, .counter, 0, [], false, 1, ∅, some now⟩ _ _
    rw [hvalue]
    cases parseValue parseFloat ⟨name, .counter, 0, [], false, 1, ∅, some now⟩
      (trimSpaceBytes rawValue) (trimSpaceBytes rawType) with
    | error e => rfl
    | ok m =>
      simp only [Except.map, bind, Except.bind, parseSections_receivedAt]
      cases parseSections parseFloat m false false sections with
      | error e => rfl
      | ok m =>
        by_cases hrate : m.sampleRate ≠ 1 ∧ (m.type = .gauge ∨ m.type = .set)
        · simp [Metric.receivedAgain, hrate]
        · simp [Metric.receivedAgain, hrate]
  · rfl

/-- **The time is only noted.** -/
theorem parseLine_receivedAt (line : Bytes) (now now' limit : Int) :
    parseLine parseFloat line now' limit =
      (parseLine parseFloat line now limit).map (·.receivedAgain now') := by
  unfold parseLine
  simp only
  split
  · rfl
  split
  · rfl
  split
  · rfl
  split
  · rfl
  · exact parseBody_receivedAt _ _ now now'

/-- **What is accepted is accepted under a higher limit.** -/
theorem parseLine_limit {now limit limit' : Int} (h : parseLine parseFloat line now limit = .ok m)
    (hle : limit ≤ limit') : parseLine parseFloat line now limit' = .ok m := by
  unfold parseLine at h ⊢
  simp only at h ⊢
  split
  · rename_i hblank
    rw [if_pos hblank] at h
    cases h
  rename_i hblank
  rw [if_neg hblank] at h
  split at h
  · cases h
  split at h
  · cases h
  rename_i hname
  split at h
  · cases h
  rename_i hshort
  rw [if_neg hname, if_neg (by omega)]
  exact h

end

end Dogstatsd
