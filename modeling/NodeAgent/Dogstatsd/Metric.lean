import Mathlib.Data.Rat.Init
import NodeAgent.Infra.Dict
import NodeAgent.Infra.Utf8

/-!
# Metrics (`dogstatsd/types.go`, `dogstatsd/normalize.go`)

A metric as the parser hands it on, and the names that are made from it. Numbers are exact
rationals. A `time.Time` that may be zero is an `Option Int`, in nanoseconds.
-/

namespace Dogstatsd

open Infra

inductive MetricType where
  | counter
  | gauge
  | timer
  | histogram
  | set
  /-- any other string of the Go type -/
  | other (text : Bytes)
  deriving DecidableEq

def MetricType.text : MetricType → Bytes
  | .counter => ascii "c"
  | .gauge => ascii "g"
  | .timer => ascii "ms"
  | .histogram => ascii "h"
  | .set => ascii "s"
  | .other text => text

abbrev Labels := Dict Bytes Bytes

structure Metric where
  name : Bytes
  type : MetricType
  value : ℚ
  setValue : Bytes
  relative : Bool
  sampleRate : ℚ
  tags : Labels
  receivedAt : Option Int

/-! ## Names -/

/-- `strings.ReplaceAll(s, "__", "_")` -/
def replaceDouble : Bytes → Bytes
  | 95 :: 95 :: rest => 95 :: replaceDouble rest
  | b :: rest => b :: replaceDouble rest
  | [] => []

/-- `strings.Contains(s, "__")` -/
def hasDouble : Bytes → Bool
  | a :: b :: rest => (a = 95 && b = 95) || hasDouble (b :: rest)
  | _ => false

/-- The loop of `collapseUnderscores`. Every round makes the string shorter. -/
def collapseLoop : Nat → Bytes → Bytes
  | 0, s => s
  | fuel + 1, s => if hasDouble s then collapseLoop fuel (replaceDouble s) else s

def collapseUnderscores (s : Bytes) : Bytes := collapseLoop s.length s

/-- `a` to `z`, `0` to `9` and `_` -/
def isLabelByte (b : UInt8) : Bool := (97 ≤ b && b ≤ 122) || (48 ≤ b && b ≤ 57) || b = 95

/-- The bytes of a label name, and `:` -/
def isNameByte (b : UInt8) : Bool := isLabelByte b || b = 58

/-- What is written for one rune of a lower-cased name. -/
def nameByte (allowed : UInt8 → Bool) (r : Rune) : UInt8 :=
  match lowerAscii r with
  | some b => if allowed b then b else 95
  | none => 95

/-- For metrics and labels, which differ in the bytes that are kept and in the name for an empty
one. -/
def normalizeName (allowed : UInt8 → Bool) (unnamed name : Bytes) : Bytes :=
  let trimmed := trimSpace (runes name)
  if trimmed = [] then unnamed
  else
    let collapsed := collapseUnderscores (trimmed.map (nameByte allowed))
    let out := if collapsed.all (· = 95) then unnamed else collapsed
    match out with
    | b :: _ => if 48 ≤ b && b ≤ 57 then 95 :: out else out
    | [] => out

def normalizeMetricName (name : Bytes) : Bytes :=
  normalizeName isNameByte (ascii "unnamed_metric") name

def normalizeLabelKey (key : Bytes) : Bytes := normalizeName isLabelByte (ascii "label") key

def sanitizeLabelValue (value : Bytes) : Bytes :=
  let v := trimSpaceBytes (toValidUTF8 value [0xEF, 0xBF, 0xBD])
  if v = [] then ascii "true" else v

def sortedLabels (labels : Labels) : List (Bytes × Bytes) := labels.sortedEntries

/-! ## Remote-write series -/

structure Sample where
  value : ℚ
  timestamp : Int
  deriving DecidableEq

structure TimeSeries where
  labels : List (Bytes × Bytes)
  samples : List Sample
  deriving DecidableEq

def labelsMapToSortedPromLabels (metricName : Bytes) (labels : Labels) : List (Bytes × Bytes) :=
  (ascii "__name__", metricName) :: sortedLabels labels

end Dogstatsd
