import NodeAgent.Infra.Sequences
import NodeAgent.Dogstatsd.Aggregator.Bound
import NodeAgent.Dogstatsd.Parser
import NodeAgent.Dogstatsd.Safeguards

/-!
# The receiver (`dogstatsd/receiver.go`, `dogstatsd/types.go`)

Datagrams wait in a queue. Parse workers take them out, and go through the lines of a datagram one
by one, each up to `Add`. Meanwhile windows are flushed.

* `processLine_add` — of the aggregator a line changes nothing, or it is one call of `Add`
-/

namespace Dogstatsd

open Infra

/-! ## Configuration -/

inductive ConfigError where
  /-- `dogstatsd packet-queue-max-bytes must be positive` -/
  | packetQueueMaxBytes
  /-- `dogstatsd listen address must not be empty` -/
  | listenAddr
  /-- `dogstatsd %s must be positive` -/
  | notPositive (name : String)
  /-- `dogstatsd active-series-ttl must be positive` -/
  | activeSeriesTTL
  /-- `dogstatsd saturation-threshold must be greater than 0 and no greater than 1` -/
  | saturationThreshold
  /-- `dogstatsd saturation-duration must be positive` -/
  | saturationDuration
  /-- `dogstatsd shutdown-drain-timeout must be positive` -/
  | shutdownDrainTimeout
  deriving DecidableEq

/-- The allowed sources are left out. -/
structure Config where
  listenAddr : Bytes
  maxPacketBytes : Int
  packetQueueSize : Int
  packetQueueMaxBytes : Int
  parseWorkers : Int
  bufferMaxEvents : Int
  batchMaxSeries : Int
  maxMetricNameLength : Int
  maxTagsPerMetric : Int
  maxTagKeyLength : Int
  maxTagValueLength : Int
  activeSeriesPerMetricCap : Int
  activeSeriesGlobalCap : Int
  activeSeriesTTL : Int
  tagKeyBlocklist : Bytes
  maxBytesPerSecond : Int
  maxEventsPerSecond : Int
  saturationThreshold : ℚ
  saturationDuration : Int
  shutdownDrainTimeout : Int

/-- The numbers that must be positive, in the order they are checked. -/
def Config.checks (c : Config) : List (String × Int) :=
  [("max-packet-bytes", c.maxPacketBytes), ("packet-queue-size", c.packetQueueSize),
    ("parse-workers", c.parseWorkers), ("buffer-max-events", c.bufferMaxEvents),
    ("batch-max-series", c.batchMaxSeries), ("max-metric-name-length", c.maxMetricNameLength),
    ("max-tags-per-metric", c.maxTagsPerMetric), ("max-tag-key-length", c.maxTagKeyLength),
    ("max-tag-value-length", c.maxTagValueLength),
    ("active-series-per-metric-cap", c.activeSeriesPerMetricCap),
    ("active-series-global-cap", c.activeSeriesGlobalCap),
    ("max-bytes-per-second", c.maxBytesPerSecond), ("max-events-per-second", c.maxEventsPerSecond)]

def Config.validate (c : Config) : Option ConfigError :=
  if c.packetQueueMaxBytes ≤ 0 then some .packetQueueMaxBytes
  else if c.listenAddr = [] then some .listenAddr
  else
    match c.checks.find? (fun check => check.2 ≤ 0) with
    | some check => some (.notPositive check.1)
    | none =>
      if c.activeSeriesTTL ≤ 0 then some .activeSeriesTTL
      else if c.saturationThreshold ≤ 0 ∨ c.saturationThreshold > 1 then some .saturationThreshold
      else if c.saturationDuration ≤ 0 then some .saturationDuration
      else if c.shutdownDrainTimeout ≤ 0 then some .shutdownDrainTimeout
      else none

theorem Config.positive_of_valid {cfg : Config} (h : cfg.validate = none) :
    0 < cfg.packetQueueMaxBytes ∧ ∀ check ∈ cfg.checks, 0 < check.2 := by
  unfold Config.validate at h
  split at h
  · cases h
  next hbytes =>
  split at h
  · cases h
  split at h
  · cases h
  next hchecks =>
  refine ⟨by omega, fun check hmem => ?_⟩
  have := List.find?_eq_none.mp hchecks check hmem
  simpa using this

def Config.tagPolicy (c : Config) : TagPolicy :=
  newTagPolicy c.tagKeyBlocklist c.maxTagsPerMetric c.maxTagKeyLength c.maxTagValueLength

/-! ## Lines -/

/-- A receiver with an aggregator. It is made by `newReceiver` only, so its configuration is
valid. -/
structure Receiver where
  cfg : Config
  valid : cfg.validate = none
  limiter : SeriesLimiter

def newReceiver (cfg : Config) : Except ConfigError Receiver :=
  match h : cfg.validate with
  | some e => .error e
  | none =>
    .ok ⟨cfg, h, newSeriesLimiter cfg.activeSeriesPerMetricCap cfg.activeSeriesGlobalCap
      cfg.activeSeriesTTL⟩

inductive LineOutcome where
  | blank
  | rateLimited
  | parseError (error : ParseError)
  | mappingError (error : MappingError)
  | refused (reason : LimitReason)
  | dropped (reason : DropReason)
  | added
  deriving DecidableEq

namespace Receiver

variable (parseFloat : Bytes → Option ℚ) (r : Receiver)

/-- The end of the loop of `processPacket`: from the policy and the limits to the aggregator. -/
def processMetric (a : Aggregator) (now : Int) (metric : Metric) :
    LineOutcome × Receiver × Aggregator :=
  let tags := (r.cfg.tagPolicy.apply metric.tags).1
  match buildRawSeries metric tags now with
  | .error e => (.mappingError e, r, a)
  | .ok series =>
    match r.limiter.allow series now with
    | (⟨some reason, _⟩, limiter) => (.refused reason, { r with limiter }, a)
    | (⟨none, _⟩, limiter) =>
      match a.add metric tags now with
      | (a, some reason) => (.dropped reason, { r with limiter }, a)
      | (a, none) => (.added, { r with limiter }, a)

/-- The loop of `processPacket`, for one line. `allowed` is the answer of the event limiter. -/
def processLine (a : Aggregator) (now : Int) (allowed : Bool) (rawLine : Bytes) :
    LineOutcome × Receiver × Aggregator :=
  let line := trimSpaceBytes rawLine
  if line = [] then (.blank, r, a)
  else if allowed = false then (.rateLimited, r, a)
  else
    match parseLine parseFloat line now r.cfg.maxMetricNameLength with
    | .error e => (.parseError e, r, a)
    | .ok metric => r.processMetric a now metric

end Receiver

/-! ## Workers -/

/-- A parse worker: the time at which it took its datagram, and the lines that are left of it. -/
structure Worker where
  now : Int
  lines : List Bytes

structure Intake where
  receiver : Receiver
  packets : List Bytes
  workers : Nat → Worker
  flushing : Flushing

/-- The atomic steps. -/
inductive IntakeStep where
  -- a datagram is put into the queue
  | receive (payload : Bytes)
  -- a worker takes a datagram, when it is done with the one before
  | dequeue (worker : Nat) (now : Int)
  -- a worker goes on to its next line
  | line (worker : Nat) (allowed : Bool)
  -- the critical sections of `Snapshot`, and `Commit`
  | rotate
  | publish (index : Nat) (atMillis : Int)
  | commit

namespace Intake

variable (parseFloat : Bytes → Option ℚ) (formatFloat : ℚ → Bytes)

def setWorker (sys : Intake) (i : Nat) (w : Worker) : Intake :=
  { sys with workers := Function.update sys.workers i w }

def processLine (sys : Intake) (i : Nat) (allowed : Bool) (line : Bytes) (rest : List Bytes) :
    Intake :=
  let now := (sys.workers i).now
  let done := sys.receiver.processLine parseFloat sys.flushing.agg now allowed line
  { sys.setWorker i ⟨now, rest⟩ with
    receiver := done.2.1
    flushing := { sys.flushing with agg := done.2.2 } }

def next (sys : Intake) : IntakeStep → Intake
  | .receive payload => { sys with packets := sys.packets ++ [payload] }
  | .dequeue i now =>
    match (sys.workers i).lines, sys.packets with
    | [], payload :: packets => { sys with packets }.setWorker i ⟨now, payload.splitOn 10⟩
    | _, _ => sys
  | .line i allowed =>
    match (sys.workers i).lines with
    | [] => sys
    | line :: rest => sys.processLine parseFloat i allowed line rest
  | .rotate => { sys with flushing := sys.flushing.step formatFloat .rotate }
  | .publish index atMillis =>
    { sys with flushing := sys.flushing.step formatFloat (.publish index atMillis) }
  | .commit => { sys with flushing := sys.flushing.step formatFloat .commit }

def start (r : Receiver) (a : Aggregator) : Intake := ⟨r, [], fun _ => ⟨0, []⟩, ⟨a, []⟩⟩

end Intake

/-! ## What a line does -/

section

variable {parseFloat : Bytes → Option ℚ} {r : Receiver} {a : Aggregator}

structure FromLine (r : Receiver) (now : Int) (metric : Metric) (tags : Labels) : Prop where
  parsed : Parsed now metric
  tags : tags = (r.cfg.tagPolicy.apply metric.tags).1

theorem processMetric_add {now : Int} {metric : Metric} (h : Parsed now metric) :
    (r.processMetric a now metric).2.2 = a ∨
      ∃ tags, FromLine r now metric tags ∧
        (r.processMetric a now metric).2.2 = (a.add metric tags now).1 := by
  unfold Receiver.processMetric
  simp only
  split
  · exact .inl rfl
  split
  · exact .inl rfl
  refine .inr ⟨_, ⟨h, rfl⟩, ?_⟩
  split
  · rename_i hadd
    rw [hadd]
  · rename_i hadd
    rw [hadd]

theorem processLine_add (parseFloat : Bytes → Option ℚ) (r : Receiver) (a : Aggregator) (now : Int)
    (allowed : Bool) (line : Bytes) :
    (r.processLine parseFloat a now allowed line).2.2 = a ∨
      ∃ metric tags, parseLine parseFloat (trimSpaceBytes line) now r.cfg.maxMetricNameLength =
          .ok metric ∧ FromLine r now metric tags ∧
        (r.processLine parseFloat a now allowed line).2.2 = (a.add metric tags now).1 := by
  unfold Receiver.processLine
  simp only
  split
  · exact .inl rfl
  split
  · exact .inl rfl
  split
  · exact .inl rfl
  · rename_i metric hparse
    rcases processMetric_add (parseLine_ok hparse) with h | ⟨tags, hfrom, h⟩
    · exact .inl h
    · exact .inr ⟨metric, tags, hparse, hfrom, h⟩

theorem cfg_processLine (now : Int) (allowed : Bool) (line : Bytes) :
    (r.processLine parseFloat a now allowed line).2.1.cfg = r.cfg := by
  unfold Receiver.processLine Receiver.processMetric
  simp only
  split
  · rfl
  split
  · rfl
  split
  · rfl
  split
  · rfl
  split
  · rfl
  split <;> rfl

end

/-! ## A small receiver -/

/-- `strconv.ParseFloat` on integers in decimal, with or without a sign. -/
def readInteger (token : Bytes) : Option ℚ :=
  let digits (s : Bytes) : Option ℚ :=
    if s ≠ [] ∧ s.all (fun b => 48 ≤ b && b ≤ 57) then
      some (s.foldl (fun n b => n * 10 + (b.toNat - 48 : Nat)) 0 : Nat)
    else none
  match token with
  | 43 :: s => digits s
  | 45 :: s => (digits s).map (fun q => -q)
  | s => digits s

example : readInteger (ascii "-12") = some (-12) := by decide +kernel

def smallReceiverConfig : Config where
  listenAddr := ascii ":8125"
  maxPacketBytes := 1500
  packetQueueSize := 10
  packetQueueMaxBytes := 10000
  parseWorkers := 2
  bufferMaxEvents := 1
  batchMaxSeries := 1
  maxMetricNameLength := 100
  maxTagsPerMetric := 10
  maxTagKeyLength := 100
  maxTagValueLength := 100
  activeSeriesPerMetricCap := 10
  activeSeriesGlobalCap := 10
  activeSeriesTTL := 100
  tagKeyBlocklist := []
  maxBytesPerSecond := 10000
  maxEventsPerSecond := 100
  saturationThreshold := 1
  saturationDuration := 1
  shutdownDrainTimeout := 1

def smallReceiver : Receiver :=
  ⟨smallReceiverConfig, by decide +kernel, newSeriesLimiter 10 10 100⟩

end Dogstatsd
