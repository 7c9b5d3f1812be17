import NodeAgent.Infra.Quote
import NodeAgent.Dogstatsd.Parser

/-!
# The reasons of parse errors (`dogstatsd/receiver.go`)

The receiver counts parse errors by a reason. It looks for keywords in the text of the error, and
three of the texts quote a part of the line that comes before the keyword of the check is reached,
so an application can choose the reason of its errors.

* `reasons_agree_iff` — when two lines that fail the same check have the same reason
-/

namespace Dogstatsd

open Infra

/-! ## Texts and reasons -/

/-- The label values of the counter. -/
inductive ParseReason where
  | unsupportedType
  | invalidSampleRate
  | invalidName
  | invalidValue
  | invalidFormat
  deriving DecidableEq

/-- `err.Error()` -/
def ParseError.message (isPrint : Rune → Bool) : ParseError → Bytes
  | .emptyLine => ascii "empty line"
  | .missingColon => ascii "invalid metric format: missing ':'"
  | .nameEmpty => ascii "metric name is empty"
  | .nameTooLong limit => ascii "metric name exceeds " ++ (itoa limit ++ ascii " bytes")
  | .missingType => ascii "invalid metric format: expected value|type"
  | .valueEmpty => ascii "metric value is empty"
  | .typeEmpty => ascii "metric type is empty"
  | .invalidValue token => ascii "invalid numeric value " ++ quote isPrint token
  | .unsupportedType token => ascii "unsupported metric type " ++ quote isPrint token
  | .duplicateSampleRate => ascii "duplicate sample-rate section"
  | .sampleRateRange => ascii "sample rate must be greater than 0 and no greater than 1"
  | .duplicateTags => ascii "duplicate tag section"
  | .emptyTagKey piece => ascii "invalid empty tag key in " ++ quote isPrint piece
  | .tagCollision key =>
    ascii "duplicate or normalized-colliding tag key " ++ quote isPrint key
  | .sampleRateUnsupported type =>
    ascii "sample rate is not supported for metric type " ++ quote isPrint type.text

def parseErrorReason (msg : Bytes) : ParseReason :=
  if contains msg (ascii "unsupported metric type") then .unsupportedType
  else if contains msg (ascii "sample rate") then .invalidSampleRate
  else if contains msg (ascii "name") then .invalidName
  else if contains msg (ascii "value") || contains msg (ascii "gauge") then .invalidValue
  else .invalidFormat

/-! ## What the quoted part does -/

def keywordIn (text : Bytes) : Option ParseReason :=
  if spelled text (ascii "unsupported metric type") then some .unsupportedType
  else if spelled text (ascii "sample rate") then some .invalidSampleRate
  else if spelled text (ascii "name") then some .invalidName
  else if spelled text (ascii "value") || spelled text (ascii "gauge") then some .invalidValue
  else none

namespace ParseError

/-- The reason to which the quoted part of the line moves an error. -/
def moved : ParseError → Option ParseReason
  | .invalidValue token => (keywordIn token).filter (· ≠ .invalidValue)
  | .emptyTagKey piece => keywordIn piece
  | .tagCollision key => keywordIn key
  | _ => none

/-- The reason of a check, when the quoted part has no keyword. -/
def reason : ParseError → ParseReason
  | .nameEmpty | .nameTooLong _ => .invalidName
  | .missingType | .valueEmpty | .invalidValue _ => .invalidValue
  | .unsupportedType _ => .unsupportedType
  | .sampleRateRange | .sampleRateUnsupported _ => .invalidSampleRate
  | _ => .invalidFormat

/-- The errors come from the same check: each constructor belongs to one return statement. -/
def SameCheck (e e' : ParseError) : Prop := e.ctorIdx = e'.ctorIdx

instance (e e' : ParseError) : Decidable (e.SameCheck e') := inferInstanceAs (Decidable (_ = _))

theorem SameCheck.reason {e e' : ParseError} (h : e.SameCheck e') : e.reason = e'.reason := by
  unfold SameCheck at h
  cases e <;> cases e' <;> first | rfl | cases h

end ParseError

theorem keyword_type : Keyword (ascii "unsupported metric type") :=
  ⟨List.all_eq_true.mp (by decide), 117, 110, _, rfl, by decide, by decide⟩

theorem keyword_rate : Keyword (ascii "sample rate") :=
  ⟨List.all_eq_true.mp (by decide), 115, 97, _, rfl, by decide, by decide⟩

theorem keyword_name : Keyword (ascii "name") :=
  ⟨List.all_eq_true.mp (by decide), 110, 97, _, rfl, by decide, by decide⟩

theorem keyword_value : Keyword (ascii "value") :=
  ⟨List.all_eq_true.mp (by decide), 118, 97, _, rfl, by decide, by decide⟩

theorem keyword_gauge : Keyword (ascii "gauge") :=
  ⟨List.all_eq_true.mp (by decide), 103, 97, _, rfl, by decide, by decide⟩

theorem parseErrorReason_append_quote (isPrint : Rune → Bool) (before text : Bytes) :
    parseErrorReason (before ++ quote isPrint text) =
      if contains before (ascii "unsupported metric type") ||
        spelled text (ascii "unsupported metric type") then .unsupportedType
      else if contains before (ascii "sample rate") || spelled text (ascii "sample rate") then
        .invalidSampleRate
      else if contains before (ascii "name") || spelled text (ascii "name") then .invalidName
      else if (contains before (ascii "value") || spelled text (ascii "value")) ||
        (contains before (ascii "gauge") || spelled text (ascii "gauge")) then .invalidValue
      else .invalidFormat := by
  rw [parseErrorReason, contains_append_quote isPrint keyword_type,
    contains_append_quote isPrint keyword_rate, contains_append_quote isPrint keyword_name,
    contains_append_quote isPrint keyword_value, contains_append_quote isPrint keyword_gauge]

theorem reason_invalidValue (isPrint : Rune → Bool) (token : Bytes) :
    parseErrorReason (ParseError.message isPrint (.invalidValue token)) =
      (ParseError.moved (.invalidValue token)).getD .invalidValue := by
  have hbefore :
      contains (ascii "invalid numeric value ") (ascii "unsupported metric type") = false ∧
      contains (ascii "invalid numeric value ") (ascii "sample rate") = false ∧
      contains (ascii "invalid numeric value ") (ascii "name") = false ∧
      contains (ascii "invalid numeric value ") (ascii "value") = true := by
    repeat rw [ascii_ofList]
    decide +kernel
  obtain ⟨htype, hrate, hname, hvalue⟩ := hbefore
  rw [ParseError.message, parseErrorReason_append_quote, htype, hrate, hname, hvalue]
  simp only [Bool.false_or, Bool.true_or, if_true, ParseError.moved, keywordIn]
  split
  · rfl
  split
  · rfl
  split
  · rfl
  split <;> rfl

theorem reason_of_no_keyword (isPrint : Rune → Bool) {before : Bytes}
    (h : ∀ word ∈ [ascii "unsupported metric type", ascii "sample rate", ascii "name",
      ascii "value", ascii "gauge"], contains before word = false) (text : Bytes) :
    parseErrorReason (before ++ quote isPrint text) = (keywordIn text).getD .invalidFormat := by
  simp only [List.forall_mem_cons] at h
  obtain ⟨htype, hrate, hname, hvalue, hgauge, -⟩ := h
  rw [parseErrorReason_append_quote, htype, hrate, hname, hvalue, hgauge, keywordIn]
  simp only [Bool.false_or]
  split
  · rfl
  split
  · rfl
  split
  · rfl
  split <;> rfl

theorem reason_nameTooLong (isPrint : Rune → Bool) (limit : Int) :
    parseErrorReason (ParseError.message isPrint (.nameTooLong limit)) = .invalidName := by
  -- two letters of the other keywords are neither in the text nor in a number
  have hletter : ∀ b : UInt8, 57 < b.toNat → b ∉ ascii "metric name exceeds " →
      b ∉ ascii " bytes" → b ∉ ParseError.message isPrint (.nameTooLong limit) := by
    intro b hb hbefore hafter hmem
    rcases List.mem_append.mp hmem with hmem | hmem
    · exact hbefore hmem
    rcases List.mem_append.mp hmem with hmem | hmem
    · exact absurd (of_mem_itoa hmem) (by omega)
    · exact hafter hmem
  have hname : ascii "name" <:+: ParseError.message isPrint (.nameTooLong limit) :=
    ⟨ascii "metric ", ascii " exceeds " ++ (itoa limit ++ ascii " bytes"), rfl⟩
  rw [parseErrorReason,
    contains_of_notMem (b := 117) (by decide) (hletter 117 (by decide) (by decide) (by decide)),
    contains_of_notMem (b := 112) (by decide) (hletter 112 (by decide) (by decide) (by decide)),
    contains_iff.mpr hname]
  rfl

/-- Only the types that are not sampled are in an error. -/
def ParseError.Sampled (e : ParseError) : Prop :=
  ∀ type, e = .sampleRateUnsupported type → type = .gauge ∨ type = .set

/-- **The reason is that of the check, unless the quoted part has a keyword before it.** -/
theorem parseErrorReason_message (isPrint : Rune → Bool) {e : ParseError} (h : e.Sampled) :
    parseErrorReason (e.message isPrint) = e.moved.getD e.reason := by
  cases e with
  | invalidValue token => exact reason_invalidValue isPrint token
  | nameTooLong limit => exact reason_nameTooLong isPrint limit
  | unsupportedType token =>
    have htype : contains (ascii "unsupported metric type ") (ascii "unsupported metric type") =
        true := by
      repeat rw [ascii_ofList]
      decide +kernel
    rw [ParseError.message, parseErrorReason_append_quote, htype]
    rfl
  | emptyTagKey piece =>
    refine reason_of_no_keyword isPrint ?_ piece
    repeat rw [ascii_ofList]
    decide +kernel
  | tagCollision key =>
    refine reason_of_no_keyword isPrint ?_ key
    repeat rw [ascii_ofList]
    decide +kernel
  | sampleRateUnsupported type =>
    have hrate : contains (ascii "sample rate is not supported for metric type ")
      (ascii "unsupported metric type") = false ∧
      contains (ascii "sample rate is not supported for metric type ") (ascii "sample rate") =
        true := by
      repeat rw [ascii_ofList]
      decide +kernel
    have htext : spelled type.text (ascii "unsupported metric type") = false := by
      rcases h type rfl with rfl | rfl <;> decide +kernel
    rw [ParseError.message, parseErrorReason_append_quote, hrate.1, hrate.2, htext]
    rfl
  | _ =>
    rw [ParseError.message, parseErrorReason]
    repeat rw [ascii_ofList]
    decide +kernel

theorem ParseError.moved_ne (e : ParseError) : e.moved ≠ some e.reason := by
  have hkeyword : ∀ text, keywordIn text ≠ some .invalidFormat := by
    intro text
    unfold keywordIn
    split
    · simp
    split
    · simp
    split
    · simp
    split <;> simp
  cases e with
  | invalidValue token =>
    intro h
    obtain ⟨-, hne⟩ := Option.filter_eq_some_iff.mp h
    exact of_decide_eq_true hne rfl
  | emptyTagKey piece => exact hkeyword piece
  | tagCollision key => exact hkeyword key
  | _ => exact fun h => by cases h

/-! ## The errors of a line -/

section

variable {parseFloat : Bytes → Option ℚ}

theorem parseValue_sampled {m : Metric} {valueToken typeToken : Bytes} {e : ParseError}
    (h : parseValue parseFloat m valueToken typeToken = .error e) : e.Sampled := by
  unfold parseValue at h
  split at h
  · cases h
  · cases h
    exact fun _ heq => by cases heq
  · split at h
    · cases h
      exact fun _ heq => by cases heq
    · cases h

theorem parseTagParts_sampled : ∀ {parts : List Bytes} {tags : Labels} {e : ParseError},
    parseTagParts tags parts = .error e → e.Sampled
  | [], _, _, h => by cases h
  | part :: parts, tags, e, h => by
    rw [parseTagParts] at h
    simp only at h
    split at h
    · exact parseTagParts_sampled h
    split at h
    · cases h
      exact fun _ heq => by cases heq
    split at h
    · cases h
      exact fun _ heq => by cases heq
    · exact parseTagParts_sampled h

theorem parseTags_sampled {raw : Bytes} {e : ParseError} (h : parseTags raw = .error e) :
    e.Sampled := by
  unfold parseTags at h
  split at h
  · cases h
  · exact parseTagParts_sampled h

theorem parseSections_sampled : ∀ {sections : List Bytes} {m : Metric} {seenRate seenTags : Bool}
    {e : ParseError}, parseSections parseFloat m seenRate seenTags sections = .error e → e.Sampled
  | [], _, _, _, _, h => by cases h
  | rawToken :: rest, m, seenRate, seenTags, e, h => by
    unfold parseSections at h
    split at h
    · exact parseSections_sampled h
    split at h
    · split at h
      · cases h
        exact fun _ heq => by cases heq
      split at h
      · cases h
        exact fun _ heq => by cases heq
      split at h
      · cases h
        exact fun _ heq => by cases heq
      · exact parseSections_sampled h
    split at h
    · split at h
      · cases h
        exact fun _ heq => by cases heq
      split at h
      · next htags =>
        cases h
        exact parseTags_sampled htags
      · exact parseSections_sampled h
    · exact parseSections_sampled h

theorem bind_eq_error {α β : Type} {x : Except ParseError α} {f : α → Except ParseError β}
    {e : ParseError} (h : (x >>= f) = .error e) :
    x = .error e ∨ ∃ a, x = .ok a ∧ f a = .error e := by
  cases x with
  | error e' =>
    cases h
    exact .inl rfl
  | ok a => exact .inr ⟨a, rfl, h⟩

theorem parseLine_sampled {line : Bytes} {now limit : Int} {e : ParseError}
    (h : parseLine parseFloat line now limit = .error e) : e.Sampled := by
  unfold parseLine at h
  simp only at h
  split at h
  · cases h
    exact fun _ heq => by cases heq
  split at h
  · cases h
    exact fun _ heq => by cases heq
  split at h
  · cases h
    exact fun _ heq => by cases heq
  split at h
  · cases h
    exact fun _ heq => by cases heq
  unfold parseBody at h
  split at h
  · simp only at h
    split at h
    · cases h
      exact fun _ heq => by cases heq
    split at h
    · cases h
      exact fun _ heq => by cases heq
    rcases bind_eq_error h with hvalue | ⟨m₁, -, h⟩
    · exact parseValue_sampled hvalue
    rcases bind_eq_error h with hsections | ⟨m₂, -, h⟩
    · exact parseSections_sampled hsections
    split at h
    · next hsampled =>
      cases h
      intro type heq
      cases heq
      exact hsampled.2
    · cases h
  · cases h
    exact fun _ heq => by cases heq

/-! ## Two lines -/

/-- **Two lines that fail the same check have the same reason if and only if the quoted parts move
the errors to the same reason, or leave both as they are.** -/
theorem reasons_agree_iff (isPrint : Rune → Bool) {line line' : Bytes} {now now' limit limit' : Int}
    {e e' : ParseError} (h : parseLine parseFloat line now limit = .error e)
    (h' : parseLine parseFloat line' now' limit' = .error e') (hcheck : e.SameCheck e') :
    parseErrorReason (e.message isPrint) = parseErrorReason (e'.message isPrint) ↔
      e.moved = e'.moved := by
  rw [parseErrorReason_message isPrint (parseLine_sampled h),
    parseErrorReason_message isPrint (parseLine_sampled h'), ← hcheck.reason]
  have hne := e.moved_ne
  have hne' := e'.moved_ne
  rw [← hcheck.reason] at hne'
  cases hmoved : e.moved with
  | none =>
    cases hmoved' : e'.moved with
    | none => simp
    | some r => rw [hmoved'] at hne'; simpa [eq_comm] using hne'
  | some r =>
    cases hmoved' : e'.moved with
    | none => rw [hmoved] at hne; simpa using hne
    | some r' => simp

/-- **A value is counted as an invalid name if it is the word `name`.** -/
theorem value_counted_as_name : ∃ e e',
    parseLine (fun _ => none) (ascii "a:abc|c") 0 200 = .error e ∧
    parseLine (fun _ => none) (ascii "a:name|c") 0 200 = .error e' ∧ e.SameCheck e' ∧
    parseErrorReason (e.message (fun _ => true)) = .invalidValue ∧
    parseErrorReason (e'.message (fun _ => true)) = .invalidName :=
  ⟨.invalidValue (ascii "abc"), .invalidValue (ascii "name"), rfl, rfl, rfl, by decide +kernel,
    by decide +kernel⟩

theorem reasons_agree_iff_abc :
    parseErrorReason (ParseError.message (fun _ => true) (.invalidValue (ascii "abc"))) =
      parseErrorReason (ParseError.message (fun _ => true) (.invalidValue (ascii "x-1"))) := by
  have habc : parseLine (fun _ => none) (ascii "a:abc|c") 0 200 =
      .error (.invalidValue (ascii "abc")) := rfl
  have hx : parseLine (fun _ => none) (ascii "a:x-1|ms") 0 200 =
      .error (.invalidValue (ascii "x-1")) := rfl
  exact (reasons_agree_iff (fun _ => true) habc hx rfl).mpr (by decide +kernel)

end

end Dogstatsd
