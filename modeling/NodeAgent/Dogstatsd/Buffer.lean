import NodeAgent.Dogstatsd.Receiver

/-!
# The buffer of raw series (`dogstatsd/buffer.go`)

Without an aggregator the receiver keeps every series that it accepts in a buffer until the agent
has written it. A snapshot is reserved: what comes in later may drop a series that waits, but none
that is reserved.

* `enqueue_cases` — what a new series does to the buffer
* `snapshot_contents` — a snapshot leaves the contents and their order as they are
-/

namespace Dogstatsd

/-- A buffer. It never holds more than `max` series. -/
structure SeriesBuffer where
  max : Nat
  queued : List TimeSeries
  inflight : List TimeSeries
  bounded : inflight.length + queued.length ≤ max

def newSeriesBuffer (max : Nat) : SeriesBuffer := ⟨max, [], [], Nat.zero_le max⟩

namespace SeriesBuffer

def contents (b : SeriesBuffer) : List TimeSeries := b.inflight ++ b.queued

/-- The first component is the number of series that were dropped and the size of the buffer. -/
def enqueue (b : SeriesBuffer) (series : TimeSeries) : (Nat × Nat) × SeriesBuffer :=
  if hfull : b.inflight.length + b.queued.length ≥ b.max then
    match hqueued : b.queued with
    -- every slot is reserved
    | [] => ((1, b.max), b)
    | _ :: rest =>
      ((1, b.inflight.length + (rest ++ [series]).length),
        ⟨b.max, rest ++ [series], b.inflight, by
          have := b.bounded
          rw [hqueued, List.length_cons] at this
          rw [List.length_append, List.length_singleton]
          omega⟩)
  else
    ((0, b.inflight.length + (b.queued ++ [series]).length),
      ⟨b.max, b.queued ++ [series], b.inflight, by
        rw [List.length_append, List.length_singleton]
        omega⟩)

def snapshot (b : SeriesBuffer) (max : Int) : List TimeSeries × SeriesBuffer :=
  if max ≤ 0 then ([], b)
  else if hidle : b.inflight = [] then
    (b.queued.take max.toNat,
      ⟨b.max, b.queued.drop max.toNat, b.queued.take max.toNat, by
        have := b.bounded
        rw [hidle] at this
        rw [← List.length_append, List.take_append_drop]
        simpa using this⟩)
  else (b.inflight, b)

/-- The first component is the number of series that are left. -/
def commit (b : SeriesBuffer) (count : Int) : Nat × SeriesBuffer :=
  let inflight := b.inflight.drop count.toNat
  (inflight.length + b.queued.length, ⟨b.max, b.queued, inflight, by
    have := b.bounded
    rw [List.length_drop]
    omega⟩)

end SeriesBuffer

/-- The number of series that `Receiver.Snapshot` asks its buffer for. -/
def Config.snapshotSize (c : Config) (maxSeries : Int) : Int :=
  if maxSeries ≤ 0 ∨ maxSeries > c.batchMaxSeries then c.batchMaxSeries else maxSeries

namespace SeriesBuffer

variable {b : SeriesBuffer}

/-- **What a new series does**: it is added, and if there is no room the oldest one that is not
reserved is dropped, or else the new one. -/
theorem enqueue_cases (b : SeriesBuffer) (series : TimeSeries) :
    ((b.enqueue series).2.inflight = b.inflight ∧ (b.enqueue series).2.max = b.max) ∧
      (((b.enqueue series).1.1 = 1 ∧ (b.enqueue series).2.queued = b.queued) ∨
      (∃ old rest, b.queued = old :: rest ∧ (b.enqueue series).1.1 = 1 ∧
        (b.enqueue series).2.queued = rest ++ [series]) ∨
      ((b.enqueue series).1.1 = 0 ∧ (b.enqueue series).2.queued = b.queued ++ [series])) := by
  unfold enqueue
  split
  · split
    · exact ⟨⟨rfl, rfl⟩, .inl ⟨rfl, rfl⟩⟩
    · next old rest hqueued => exact ⟨⟨rfl, rfl⟩, .inr (.inl ⟨old, rest, hqueued, rfl, rfl⟩)⟩
  · exact ⟨⟨rfl, rfl⟩, .inr (.inr ⟨rfl, rfl⟩)⟩

theorem snapshot_contents (b : SeriesBuffer) (max : Int) :
    (b.snapshot max).2.contents = b.contents ∧ (b.snapshot max).2.max = b.max := by
  unfold snapshot contents
  split
  · exact ⟨rfl, rfl⟩
  split
  · next hidle =>
    refine ⟨?_, rfl⟩
    rw [List.take_append_drop, hidle, List.nil_append]
  · exact ⟨rfl, rfl⟩

theorem snapshot_reserved {max : Int} (h : max ≤ 0 → b.inflight = []) :
    (b.snapshot max).1 = (b.snapshot max).2.inflight := by
  unfold snapshot
  split
  · next hmax => exact (h hmax).symm
  split
  · rfl
  · rfl

theorem snapshot_nonpos {max : Int} (h : max ≤ 0) : b.snapshot max = ([], b) := if_pos h

theorem snapshot_of_reserved {max : Int} (h : b.inflight ≠ []) :
    (b.snapshot max).2.inflight = b.inflight := by
  unfold snapshot
  split
  · rfl
  · rfl

theorem commit_all {count : Int} (h : b.inflight.length ≤ count) :
    (b.commit count).2.inflight = [] :=
  List.drop_eq_nil_of_le (by omega)

end SeriesBuffer

end Dogstatsd
