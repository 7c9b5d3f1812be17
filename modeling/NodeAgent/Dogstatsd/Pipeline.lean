import NodeAgent.Dogstatsd.Aggregator
import NodeAgent.Dogstatsd.Spool

/-!
# The custom metric pipeline (`dogstatsd/pipeline.go`, `sender.go`, `pressure.go`)

`FlushOnce` takes the window of the aggregator to the spool and `ReplayOnce` takes the oldest
payload of the spool to the collector. Both are programs over file system calls.

Parsers go on adding samples while a flush runs. The samples that arrive between the two critical
sections of `Snapshot`, and those that arrive between `Snapshot` and `Commit`, are arguments of
the flush. Clock readings and the exchange with the collector are arguments as well.
-/

namespace Dogstatsd

open Infra

/-! ## Payloads -/

/-- The remote-write protobuf under snappy: what is encoded decodes to itself. -/
structure Codec where
  marshal : List TimeSeries → Option Bytes
  unmarshal : Bytes → Option (List TimeSeries)
  decodes : ∀ series payload, marshal series = some payload → unmarshal payload = some series

inductive EncodeError where
  | marshal
  /-- `custom metric encoded batch exceeds limit: single series is %d bytes, limit %d` -/
  | tooLarge (bytes : Nat) (limit : Int)
  deriving DecidableEq

section

variable (codec : Codec) (maxBytes : Int)

/-- The binary search of `encodeCustomBatches`: the longest part it finds that fits, with its
payload. `stop` is `high + 1`. -/
def searchBatch (rest : List TimeSeries) (low stop : Nat) (best : Option (Nat × Bytes)) :
    Except EncodeError (Option (Nat × Bytes)) :=
  if low < stop then
    let mid := low + (stop - 1 - low) / 2
    match codec.marshal (rest.take mid) with
    | none => .error .marshal
    | some payload =>
      if payload.length ≤ maxBytes then searchBatch rest (mid + 1) stop (some (mid, payload))
      else searchBatch rest low mid best
  else .ok best
termination_by stop - low

theorem searchBatch_spec {rest : List TimeSeries} {low stop : Nat} {best : Option (Nat × Bytes)}
    {n : Nat} {payload : Bytes} (hlow : 0 < low)
    (hbest : ∀ m p, best = some (m, p) → 0 < m ∧ codec.marshal (rest.take m) = some p)
    (h : searchBatch codec maxBytes rest low stop best = .ok (some (n, payload))) :
    0 < n ∧ codec.marshal (rest.take n) = some payload := by
  fun_induction searchBatch codec maxBytes rest low stop best with
  | case1 => cases h
  | case2 low stop best hlt mid p hp hfit ih =>
    refine ih (by omega) ?_ h
    intro m q hq
    obtain ⟨rfl, rfl⟩ := Prod.mk.inj (Option.some.inj hq)
    exact ⟨by omega, hp⟩
  | case3 low stop best hlt mid p hp hbig ih => exact ih hlow hbest h
  | case4 low stop best hge =>
    cases h
    exact hbest n payload rfl

/-- The loop of `encodeCustomBatches` over the series that are left. -/
def encodeLoop (rest : List TimeSeries) : Except EncodeError (List Bytes) :=
  if hrest : rest = [] then .ok []
  else
    match hfound : searchBatch codec maxBytes rest 1 (rest.length + 1) none with
    | .error e => .error e
    | .ok none =>
      match codec.marshal (rest.take 1) with
      | none => .error .marshal
      | some payload => .error (.tooLarge payload.length maxBytes)
    | .ok (some (best, payload)) =>
      have : rest.length - best < rest.length := by
        have := (searchBatch_spec codec maxBytes (by decide) (by simp) hfound).1
        have := List.length_pos_iff.mpr hrest
        omega
      match encodeLoop (rest.drop best) with
      | .error e => .error e
      | .ok payloads => .ok (payload :: payloads)
termination_by rest.length
decreasing_by simpa using this

def encodeCustomBatches (series : List TimeSeries) : Except EncodeError (List Bytes) :=
  encodeLoop codec maxBytes series

end

/-- The labels of a series with those of the agent put over them, sorted. -/
def addExternalLabels (external : Labels) (series : TimeSeries) : TimeSeries :=
  let own : Labels := series.labels.foldl (fun m l => m.insert l.1 l.2) ∅
  let merged : Labels := external.entries.foldl (fun m l => m.insert l.1 l.2) own
  ⟨sortedLabels merged, series.samples⟩

/-! ## Sending -/

inductive SendDisposition where
  | success
  | retry
  | permanent
  deriving DecidableEq

def classifyHTTPStatus (code : Int) : SendDisposition :=
  if 200 ≤ code ∧ code < 300 then .success
  else if code = 401 ∨ code = 403 ∨ code = 408 ∨ code = 429 ∨ 500 ≤ code then .retry
  else .permanent

/-- What comes of the request for a payload: `http.NewRequest` refuses it, `Do` fails, or the
collector answers. -/
inductive Exchange where
  | badRequest
  | failed
  | status (code : Int)
  deriving DecidableEq

inductive SendError where
  | os (cause : Errno)
  | badRequest
  | failed
  /-- `collector returned %s` -/
  | collectorReturned (code : Int)
  deriving DecidableEq

/-- What `SendFile` makes of an exchange. -/
def Exchange.disposition : Exchange → SendDisposition × Int × Option SendError
  | .badRequest => (.permanent, 0, some .badRequest)
  | .failed => (.retry, 0, some .failed)
  | .status code =>
    match classifyHTTPStatus code with
    | .success => (.success, code, none)
    | other => (other, code, some (.collectorReturned code))

def sendFile (exchange : Exchange) (file : Path) :
    FsProg (SendDisposition × Int × Option SendError) := do
  let f ← Os.openFile file
  match f with
  | .error e => .ret (.retry, 0, some (.os e))
  | .ok _ => do
    let _ ← Os.close file
    .ret exchange.disposition

inductive PayloadError where
  | os (cause : Errno)
  | decode
  /-- `decode custom spool payload: no samples` -/
  | noSamples
  deriving DecidableEq

def customPayloadSampleCount (codec : Codec) (file : Path) :
    FsProg (Except PayloadError Nat) := do
  let compressed ← Os.readFile file
  match compressed with
  | .error e => .ret (.error (.os e))
  | .ok compressed =>
    match codec.unmarshal compressed with
    | none => .ret (.error .decode)
    | some request =>
      let count := (request.map (fun series => series.samples.length)).sum
      if count = 0 then .ret (.error .noSamples) else .ret (.ok count)

/-! ## Health -/

/-- Saturation is reported once the utilization has stayed above the threshold. -/
structure PressureState where
  threshold : ℚ
  duration : Int
  since : Option Int

def PressureState.observe (p : PressureState) (utilization : ℚ) (now : Int) :
    Bool × PressureState :=
  if utilization < p.threshold then (false, { p with since := none })
  else
    let since := p.since.getD now
    (decide (now - since ≥ p.duration), { p with since := some since })

inductive Component where
  | processing
  | spool
  | delivery
  | authentication
  | saturation
  deriving DecidableEq

/-- The map `health` of the pipeline. Its keys are the five components. -/
abbrev Health := Component → Bool

/-! ## The pipeline -/

structure PipelineConfig where
  flushInterval : Int
  maxBatchBytes : Int
  externalLabels : Labels
  retryMin : Int
  retryMax : Int
  saturationThreshold : ℚ
  saturationDuration : Int

inductive PipelineError where
  /-- `custom metric flush interval must be positive` -/
  | flushInterval
  /-- `custom metric max batch bytes must be positive` -/
  | maxBatchBytes
  /-- `custom metric retry bounds are invalid` -/
  | retryBounds
  /-- `custom metric saturation settings are invalid` -/
  | saturationSettings
  deriving DecidableEq

def PipelineConfig.validate (c : PipelineConfig) : Option PipelineError :=
  if c.flushInterval ≤ 0 then some .flushInterval
  else if c.maxBatchBytes ≤ 0 then some .maxBatchBytes
  else if c.retryMin ≤ 0 ∨ c.retryMax < c.retryMin then some .retryBounds
  else if c.saturationThreshold ≤ 0 ∨ c.saturationThreshold > 1 ∨ c.saturationDuration ≤ 0 then
    some .saturationSettings
  else none

structure Pipeline where
  cfg : PipelineConfig
  valid : cfg.validate = none
  aggregator : Aggregator
  spool : CustomSpool
  health : Health
  spoolPressure : PressureState
  spoolBytesCurrent : Int

def newPipeline (cfg : PipelineConfig) (aggregator : Aggregator) (spool : CustomSpool) :
    Except PipelineError Pipeline :=
  match h : cfg.validate with
  | some e => .error e
  | none =>
    .ok ⟨cfg, h, aggregator, spool, fun _ => true,
      ⟨cfg.saturationThreshold, cfg.saturationDuration, none⟩, 0⟩

/-- A call of `Aggregator.Add`. -/
structure AddCall where
  metric : Metric
  tags : Labels
  clock : Int

def Aggregator.addAll (a : Aggregator) (calls : List AddCall) : Aggregator :=
  calls.foldl (fun a call => (a.add call.metric call.tags call.clock).1) a

/-- The clock readings of `refreshSpoolMetrics`. -/
structure RefreshTimes where
  maintain : Int
  stats : Int
  pressure : Int

/-- What a flush reads from the outside: the time, the samples that arrive while it runs, and what
the spool reads. -/
structure FlushInput where
  atMillis : Int
  -- between the critical sections of `Snapshot`, and from there to `Commit`
  gap : List AddCall
  late : List AddCall
  putTime : Int
  rands : List Bytes
  refresh : RefreshTimes

inductive FlushError where
  | encode (cause : EncodeError)
  | spool (cause : SpoolError)
  deriving DecidableEq

/-- How a flush ended. The source returns the error only. -/
inductive FlushOutcome where
  | nothing
  | failed (error : FlushError)
  | stored (files : List Path) (payloads : List Bytes)
  deriving DecidableEq

/-- What became of the payload that a replay took up. -/
inductive Verdict where
  | corrupt (error : PayloadError)
  | sent (disposition : SendDisposition) (status : Int)
  deriving DecidableEq

inductive ReplayError where
  | spool (cause : SpoolError)
  | payload (cause : PayloadError)
  | send (cause : SendError)
  /-- `errors.Join` -/
  | join (errors : List ReplayError)

/-- The result of a replay. The source does not return `handled`, the payload it took up. -/
structure ReplayResult where
  disposition : SendDisposition
  status : Int
  error : Option ReplayError
  handled : Option (Path × Verdict)

/-- Every component is healthy. -/
def overall (health : Health) : Bool :=
  health .processing && health .spool && health .delivery && health .authentication &&
    health .saturation

namespace Pipeline

variable (p : Pipeline)

def setComponentHealthy (component : Component) (healthy : Bool) : Pipeline :=
  { p with health := fun c => if c = component then healthy else p.health c }

/-- The flag `healthy` after `setComponentHealthy`. -/
def healthy : Bool := overall p.health

def updateSpoolPressure (bytes now : Int) : Pipeline :=
  let (saturated, pressure) := p.spoolPressure.observe (bytes / p.spool.maxBytes) now
  { p with spoolBytesCurrent := bytes, spoolPressure := pressure }.setComponentHealthy .saturation
    (!saturated)

def refreshSpoolMetrics (times : RefreshTimes) : FsProg Pipeline := do
  let (_, err) ← p.spool.maintain times.maintain
  match err with
  | some _ => .ret (p.setComponentHealthy .spool false)
  | none => do
    let stats ← p.spool.statsLocked times.stats
    match stats with
    | .error _ => .ret (p.setComponentHealthy .spool false)
    | .ok stats => .ret (p.updateSpoolPressure stats.bytes times.pressure)

/-- `Snapshot`, with the samples that arrive between its critical sections. -/
def takeWindow (formatFloat : ℚ → Bytes) (atMillis : Int) (gap : List AddCall) (a : Aggregator) :
    List TimeSeries × Aggregator :=
  match a.rotate with
  | (.inl series, a) => (series, a.addAll gap)
  | (.inr rotated, a) => (a.addAll gap).publish formatFloat atMillis rotated

def flushOnce (codec : Codec) (formatFloat : ℚ → Bytes) (input : FlushInput) :
    FsProg (Pipeline × FlushOutcome) :=
  let (series, a) := takeWindow formatFloat input.atMillis input.gap p.aggregator
  let p := { p with aggregator := a.addAll input.late }
  if series = [] then do
    let p ← p.refreshSpoolMetrics input.refresh
    .ret (p, .nothing)
  else
    match encodeCustomBatches codec p.cfg.maxBatchBytes
        (series.map (addExternalLabels p.cfg.externalLabels)) with
    | .error e => .ret (p.setComponentHealthy .processing false, .failed (.encode e))
    | .ok payloads => do
      let put ← p.spool.putBatch payloads input.putTime input.rands
      match put with
      | .error e => do
        let p ← (p.setComponentHealthy .spool false).refreshSpoolMetrics input.refresh
        .ret (p, .failed (.spool e))
      | .ok files => do
        let p := { p with aggregator := p.aggregator.commit }
        let p := (p.setComponentHealthy .processing true).setComponentHealthy .spool true
        let p ← p.refreshSpoolMetrics input.refresh
        .ret (p, .stored files payloads)

/-- The part of `ReplayOnce` for a payload that does not decode. -/
def replayCorrupt (times : RefreshTimes) (file : Path) (e : PayloadError) :
    FsProg (Pipeline × ReplayResult) := do
  let moved ← p.spool.quarantine file (ascii "corrupt-payload")
  match moved with
  | .error q =>
    .ret ((p.setComponentHealthy .spool false).setComponentHealthy .delivery false,
      ⟨.retry, 0, some (.join [.payload e, .spool q]), some (file, .corrupt e)⟩)
  | .ok _ => do
    let p := (p.setComponentHealthy .spool true).setComponentHealthy .delivery false
    let p ← p.refreshSpoolMetrics times
    .ret (p, ⟨.permanent, 0, some (.payload e), some (file, .corrupt e)⟩)

/-- `"http-" + strconv.Itoa(status)`, or `client-error` when there is no status. -/
def rejectionReason (status : Int) : Bytes :=
  if status ≠ 0 then ascii "http-" ++ ascii (toString status) else ascii "client-error"

/-- The part of `ReplayOnce` after `SendFile`. -/
def replaySent (times : RefreshTimes) (file : Path) (disposition : SendDisposition) (status : Int)
    (sendErr : Option SendError) : FsProg (Pipeline × ReplayResult) :=
  let handled := some (file, Verdict.sent disposition status)
  let done := fun (p : Pipeline) => do
    let p ← p.refreshSpoolMetrics times
    .ret (p, ReplayResult.mk disposition status (sendErr.map .send) handled)
  let stuck := (p.setComponentHealthy .spool false).setComponentHealthy .delivery false
  match disposition with
  | .success => do
    let removed ← p.spool.remove file
    match removed with
    | .error e => .ret (stuck, ⟨.retry, status, some (.spool e), handled⟩)
    | .ok _ =>
      done (((p.setComponentHealthy .spool true).setComponentHealthy .delivery
        true).setComponentHealthy .authentication true)
  | .permanent => do
    let moved ← p.spool.quarantine file (rejectionReason status)
    match moved with
    | .error e =>
      .ret (stuck, ⟨.retry, status, some (.join ((sendErr.map .send).toList ++ [.spool e])),
        handled⟩)
    | .ok _ =>
      let p := (p.setComponentHealthy .spool true).setComponentHealthy .delivery false
      done (if status = 401 ∨ status = 403 then p.setComponentHealthy .authentication false else p)
  | .retry =>
    let p := p.setComponentHealthy .delivery false
    done (if status = 401 ∨ status = 403 then p.setComponentHealthy .authentication false else p)

/-- The part of `ReplayOnce` after `Oldest`. -/
def replayFile (codec : Codec) (exchange : Exchange) (times : RefreshTimes) (file : Path) :
    FsProg (Pipeline × ReplayResult) := do
  let count ← customPayloadSampleCount codec file
  match count with
  | .error e => p.replayCorrupt times file e
  | .ok _ => do
    let (disposition, status, sendErr) ← sendFile exchange file
    p.replaySent times file disposition status sendErr

def replayOnce (codec : Codec) (exchange : Exchange) (times : RefreshTimes) :
    FsProg (Pipeline × ReplayResult) := do
  let file ← p.spool.oldest
  match file with
  | .error e =>
    .ret (p.setComponentHealthy .spool false, ⟨.retry, 0, some (.spool e), none⟩)
  | .ok none => .ret (p, ⟨.success, 0, none, none⟩)
  | .ok (some file) => p.replayFile codec exchange times file

end Pipeline

end Dogstatsd
