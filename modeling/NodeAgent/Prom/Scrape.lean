import NodeAgent.Dogstatsd.Buffer

/-!
# Scraping (`prom/remote_writer.go`)

A scrape takes a snapshot of every source, writes them as one payload to the spool, and commits the
snapshots when the payload is written. Any step may fail, and then the next scrape finds the same
snapshots. Meanwhile the receivers enqueue new series.

* `exported_once` — what is written or held is what was enqueued and not reported dropped
-/

namespace Prom

open Dogstatsd

/-- The series that a scrape has taken from a source. -/
structure SourceSnapshot (n : Nat) where
  source : Fin n
  series : List TimeSeries

inductive Scrape (n : Nat) where
  | idle
  -- in the loop over the sources
  | collecting (snapshots : List (SourceSnapshot n)) (sources : List (Fin n))
  -- marshalling and writing
  | writing (snapshots : List (SourceSnapshot n))
  -- the payload is written; in the loop that commits
  | committing (snapshots : List (SourceSnapshot n))

/-- What a scrape has taken, and the sources that it has not come to. -/
def Scrape.parts {n : Nat} : Scrape n → List (SourceSnapshot n) × List (Fin n)
  | .idle => ([], [])
  | .collecting snapshots sources => (snapshots, sources)
  | .writing snapshots => (snapshots, [])
  | .committing snapshots => (snapshots, [])

/-- The agent with its sources. The last four fields say what happened: the series enqueued, the
number dropped, the payloads written, and the snapshots since the last commit. -/
structure Exporting (n : Nat) where
  buffers : Fin n → SeriesBuffer
  scrape : Scrape n
  enqueued : Fin n → List TimeSeries
  dropped : Fin n → Nat
  written : List (List (SourceSnapshot n))
  taken : Fin n → List (List TimeSeries)

/-- The atomic steps. -/
inductive ExportStep (n : Nat) where
  -- a parse worker of a receiver
  | enqueue (source : Fin n) (series : TimeSeries)
  -- a scrape begins, once the registry was gathered
  | gather
  -- the next source
  | snapshot
  -- `Marshal` or `writeToSpool` returns, with an error or without
  | write (success : Bool)
  -- the next snapshot
  | commit

namespace Exporting

variable {n : Nat}

def setBuffer (sys : Exporting n) (i : Fin n) (b : SeriesBuffer) : Exporting n :=
  { sys with buffers := Function.update sys.buffers i b }

def start (cfg : Fin n → Config) : Exporting n where
  buffers i := newSeriesBuffer (cfg i).bufferMaxEvents.toNat
  scrape := .idle
  enqueued _ := []
  dropped _ := 0
  written := []
  taken _ := []

/-- The body of the loop over the sources. -/
def snapshotSource (cfg : Fin n → Config) (sys : Exporting n) (snapshots : List (SourceSnapshot n))
    (i : Fin n) (sources : List (Fin n)) : Exporting n :=
  let (series, buffer) := (sys.buffers i).snapshot ((cfg i).snapshotSize 0)
  { sys.setBuffer i buffer with
    scrape :=
      .collecting (if series = [] then snapshots else snapshots ++ [⟨i, series⟩]) sources
    taken := Function.update sys.taken i (sys.taken i ++ [series]) }

def next (cfg : Fin n → Config) (sys : Exporting n) : ExportStep n → Exporting n
  | .enqueue i series =>
    let ((dropped, _), buffer) := (sys.buffers i).enqueue series
    { sys.setBuffer i buffer with
      enqueued := Function.update sys.enqueued i (sys.enqueued i ++ [series])
      dropped := Function.update sys.dropped i (sys.dropped i + dropped) }
  | .gather =>
    match sys.scrape with
    | .idle => { sys with scrape := .collecting [] (List.finRange n) }
    | _ => sys
  | .snapshot =>
    match sys.scrape with
    | .collecting snapshots (i :: sources) => sys.snapshotSource cfg snapshots i sources
    | .collecting snapshots [] => { sys with scrape := .writing snapshots }
    | _ => sys
  | .write success =>
    match sys.scrape with
    | .writing snapshots =>
      if success then
        { sys with scrape := .committing snapshots, written := sys.written ++ [snapshots] }
      else { sys with scrape := .idle }
    | _ => sys
  | .commit =>
    match sys.scrape with
    | .committing (snapshot :: snapshots) =>
      let buffer := ((sys.buffers snapshot.source).commit snapshot.series.length).2
      { sys.setBuffer snapshot.source buffer with
        scrape := .committing snapshots
        taken := Function.update sys.taken snapshot.source [] }
    | .committing [] => { sys with scrape := .idle }
    | _ => sys

def after (cfg : Fin n → Config) (steps : List (ExportStep n)) : Exporting n :=
  steps.foldl (next cfg) (start cfg)

def seriesOf (i : Fin n) (snapshots : List (SourceSnapshot n)) : List TimeSeries :=
  snapshots.flatMap fun s => if s.source = i then s.series else []

/-- What is reserved and in no payload: a snapshot that is written waits to be committed. -/
def uncommitted (sys : Exporting n) (i : Fin n) : List TimeSeries :=
  match sys.scrape with
  | .committing snapshots => (sys.buffers i).inflight.drop (seriesOf i snapshots).length
  | _ => (sys.buffers i).inflight

/-- What has been written from a source, and then what it holds besides. -/
def exported (sys : Exporting n) (i : Fin n) : List TimeSeries :=
  seriesOf i sys.written.flatten ++ sys.uncommitted i ++ (sys.buffers i).queued

end Exporting

/-! ## What is left out -/

/-- `kept` is `all` without `dropped` of its elements. -/
def LeftOut {α : Type} (kept all : List α) (dropped : Nat) : Prop :=
  kept.Sublist all ∧ kept.length + dropped = all.length

section

variable {α : Type} {kept all : List α} {dropped : Nat}

theorem LeftOut.refuse (h : LeftOut kept all dropped) (x : α) :
    LeftOut kept (all ++ [x]) (dropped + 1) := by
  refine ⟨h.1.trans (List.sublist_append_left _ _), ?_⟩
  rw [List.length_append, List.length_singleton, ← h.2]
  omega

theorem LeftOut.append (h : LeftOut kept all dropped) (x : α) :
    LeftOut (kept ++ [x]) (all ++ [x]) dropped := by
  refine ⟨h.1.append (List.Sublist.refl _), ?_⟩
  rw [List.length_append, List.length_append, ← h.2]
  omega

theorem LeftOut.replace {front rest : List α} {old : α}
    (h : LeftOut (front ++ old :: rest) all dropped) (x : α) :
    LeftOut (front ++ (rest ++ [x])) (all ++ [x]) (dropped + 1) := by
  have hless : LeftOut (front ++ rest) all (dropped + 1) := by
    refine ⟨((List.sublist_cons_self old rest).append_left front).trans h.1, ?_⟩
    rw [← h.2]
    simp only [List.length_append, List.length_cons]
    omega
  rw [← List.append_assoc]
  exact hless.append x

end

/-- **What a new series does to the account of its source.** -/
theorem LeftOut.enqueue {front all : List TimeSeries} {dropped : Nat} {b : SeriesBuffer}
    (h : LeftOut (front ++ b.queued) all dropped) (series : TimeSeries) :
    LeftOut (front ++ (b.enqueue series).2.queued) (all ++ [series])
      (dropped + (b.enqueue series).1.1) := by
  rcases (b.enqueue_cases series).2 with ⟨hd, hq⟩ | ⟨old, rest, hold, hd, hq⟩ | ⟨hd, hq⟩
  · rw [hd, hq]
    exact h.refuse series
  · rw [hd, hq]
    rw [hold] at h
    exact h.replace series
  · rw [hd, hq, ← List.append_assoc]
    exact h.append series

/-! ## One step -/

namespace Exporting

variable {n : Nat} {cfg : Fin n → Config} {sys : Exporting n} {buffers : Fin n → SeriesBuffer}
  {snapshots : List (SourceSnapshot n)} {i : Fin n}

theorem seriesOf_append (i : Fin n) (l l' : List (SourceSnapshot n)) :
    seriesOf i (l ++ l') = seriesOf i l ++ seriesOf i l' := List.flatMap_append

theorem seriesOf_eq_nil (h : i ∉ snapshots.map SourceSnapshot.source) :
    seriesOf i snapshots = [] := by
  rw [seriesOf, List.flatMap_eq_nil_iff]
  intro s hs
  refine if_neg ?_
  rintro rfl
  exact h (List.mem_map_of_mem hs)

/-- The snapshots are those of different sources, and they are reserved. -/
structure Reserved (buffers : Fin n → SeriesBuffer) (snapshots : List (SourceSnapshot n))
    (sources : List (Fin n)) : Prop where
  nodup : (snapshots.map SourceSnapshot.source ++ sources).Nodup
  series : ∀ s ∈ snapshots, (buffers s.source).inflight = s.series

theorem seriesOf_cons_of_ne {s : SourceSnapshot n} (h : s.source ≠ i) :
    seriesOf i (s :: snapshots) = seriesOf i snapshots := by
  rw [seriesOf, List.flatMap_cons, if_neg h]
  rfl

theorem seriesOf_cons_self {s : SourceSnapshot n} (h : Reserved buffers (s :: snapshots) []) :
    seriesOf s.source (s :: snapshots) = (buffers s.source).inflight := by
  have hnodup := h.nodup
  rw [List.append_nil, List.map_cons, List.nodup_cons] at hnodup
  rw [seriesOf, List.flatMap_cons, if_pos rfl, ← seriesOf, seriesOf_eq_nil hnodup.1,
    List.append_nil, h.series s List.mem_cons_self]

theorem Reserved.seriesOf_eq : ∀ {snapshots : List (SourceSnapshot n)},
    Reserved buffers snapshots [] → ∀ i,
      seriesOf i snapshots = (buffers i).inflight ∨ seriesOf i snapshots = []
  | [], _, _ => .inr rfl
  | s :: snapshots, h, i => by
    by_cases hi : s.source = i
    · subst hi
      exact .inl (seriesOf_cons_self h)
    · have hrest : Reserved buffers snapshots [] := by
        refine ⟨?_, fun s' hs' => h.series s' (List.mem_cons_of_mem s hs')⟩
        have hnodup := h.nodup
        rw [List.map_cons, List.cons_append] at hnodup
        exact hnodup.of_cons
      rw [seriesOf_cons_of_ne hi]
      exact Reserved.seriesOf_eq hrest i

/-- Some empty snapshots, and then the same one again and again. -/
def Repeats (taken : List (List TimeSeries)) (reserved : List TimeSeries) : Prop :=
  ∃ empty same, taken = List.replicate empty [] ++ List.replicate same reserved

theorem Repeats.concat {taken : List (List TimeSeries)} {old new : List TimeSeries}
    (h : Repeats taken old) (hnew : old ≠ [] → new = old) : Repeats (taken ++ [new]) new := by
  obtain ⟨empty, same, rfl⟩ := h
  by_cases hold : old = []
  · refine ⟨empty + same, 1, ?_⟩
    rw [hold, List.replicate_append_replicate]
    rfl
  · rw [hnew hold]
    refine ⟨empty, same + 1, ?_⟩
    rw [List.append_assoc, List.replicate_succ']

/-- What holds in every state. -/
structure Consistent (cfg : Fin n → Config) (sys : Exporting n) : Prop where
  max : ∀ i, (sys.buffers i).max = (cfg i).bufferMaxEvents.toNat
  kept : ∀ i, LeftOut (sys.exported i) (sys.enqueued i) (sys.dropped i)
  reserved : Reserved sys.buffers sys.scrape.parts.1 sys.scrape.parts.2
  unused : ∀ i, (cfg i).snapshotSize 0 ≤ 0 → (sys.buffers i).inflight = []
  taken : ∀ i, Repeats (sys.taken i) (sys.buffers i).inflight

theorem consistent_start (cfg : Fin n → Config) : Consistent cfg (start cfg) where
  max _ := rfl
  kept _ := ⟨List.Sublist.refl _, rfl⟩
  reserved := ⟨List.nodup_nil, fun _ h => by cases h⟩
  unused _ _ := rfl
  taken _ := ⟨0, 0, rfl⟩

theorem buffers_setBuffer (sys : Exporting n) (i : Fin n) (b : SeriesBuffer) (j : Fin n) :
    (sys.setBuffer i b).buffers j = if j = i then b else sys.buffers j :=
  Function.update_apply sys.buffers i b j

theorem uncommitted_congr {sys' : Exporting n} (hscrape : sys'.scrape = sys.scrape)
    (hinflight : (sys'.buffers i).inflight = (sys.buffers i).inflight) :
    sys'.uncommitted i = sys.uncommitted i := by
  rw [uncommitted, uncommitted, hscrape, hinflight]

theorem exported_eq (h : ∀ l, sys.scrape ≠ .committing l) (i : Fin n) :
    sys.exported i = seriesOf i sys.written.flatten ++ (sys.buffers i).contents := by
  unfold exported uncommitted
  split
  · next l hl => exact absurd hl (h l)
  · rw [List.append_assoc]
    rfl

theorem exported_committing (h : sys.scrape = .committing snapshots) (i : Fin n) :
    sys.exported i = seriesOf i sys.written.flatten ++
      (sys.buffers i).inflight.drop (seriesOf i snapshots).length ++ (sys.buffers i).queued := by
  rw [exported, uncommitted, h]

theorem Consistent.enqueue (h : Consistent cfg sys) (i : Fin n) (series : TimeSeries) :
    Consistent cfg (sys.next cfg (.enqueue i series)) := by
  have hsame : ∀ j, ((sys.next cfg (.enqueue i series)).buffers j).inflight =
        (sys.buffers j).inflight ∧
      ((sys.next cfg (.enqueue i series)).buffers j).max = (sys.buffers j).max := by
    intro j
    have hj : (sys.next cfg (.enqueue i series)).buffers j =
        if j = i then ((sys.buffers i).enqueue series).2 else sys.buffers j :=
      buffers_setBuffer sys i _ j
    rw [hj]
    split
    · next he => rw [he]; exact ((sys.buffers i).enqueue_cases series).1
    · exact ⟨rfl, rfl⟩
  refine ⟨fun j => (hsame j).2.trans (h.max j), fun j => ?_,
    ⟨h.reserved.nodup, fun s hs => (hsame _).1.trans (h.reserved.series s hs)⟩,
    fun j hj => (hsame j).1.trans (h.unused j hj), fun j => ?_⟩
  · have hkept := h.kept j
    rw [exported] at hkept ⊢
    have hfront : (sys.next cfg (.enqueue i series)).uncommitted j = sys.uncommitted j :=
      uncommitted_congr rfl (hsame j).1
    rw [hfront]
    by_cases hj : j = i
    · subst hj
      simp only [next, setBuffer, Function.update_self]
      exact hkept.enqueue series
    · simp only [next, setBuffer, Function.update_of_ne hj]
      exact hkept
  · rw [(hsame j).1]
    exact h.taken j

theorem Consistent.rearrange {sys' : Exporting n} (h : Consistent cfg sys)
    (hphase : ∀ l, sys.scrape ≠ .committing l) (hphase' : ∀ l, sys'.scrape ≠ .committing l)
    (hwritten : sys'.written = sys.written) (henqueued : sys'.enqueued = sys.enqueued)
    (hdropped : sys'.dropped = sys.dropped)
    (hbuffers : ∀ i, (sys'.buffers i).contents = (sys.buffers i).contents ∧
      (sys'.buffers i).max = (sys.buffers i).max)
    (hreserved : Reserved sys'.buffers sys'.scrape.parts.1 sys'.scrape.parts.2)
    (hunused : ∀ i, (cfg i).snapshotSize 0 ≤ 0 → (sys'.buffers i).inflight = [])
    (htaken : ∀ i, Repeats (sys'.taken i) (sys'.buffers i).inflight) : Consistent cfg sys' := by
  refine ⟨fun i => (hbuffers i).2.trans (h.max i), fun i => ?_, hreserved, hunused, htaken⟩
  have hold := h.kept i
  rw [exported_eq hphase] at hold
  rw [exported_eq hphase', hwritten, henqueued, hdropped, (hbuffers i).1]
  exact hold

theorem Consistent.snapshotSource (h : Consistent cfg sys) {sources : List (Fin n)}
    (hscrape : sys.scrape = .collecting snapshots (i :: sources)) :
    Consistent cfg (sys.snapshotSource cfg snapshots i sources) := by
  have hreserved : Reserved sys.buffers snapshots (i :: sources) := by
    have := h.reserved
    rwa [hscrape] at this
  have hnot : ∀ s ∈ snapshots, s.source ≠ i := by
    rintro s hs rfl
    exact (List.nodup_append.mp hreserved.nodup).2.2 _ (List.mem_map_of_mem hs) _
      List.mem_cons_self rfl
  have hthis : ((sys.snapshotSource cfg snapshots i sources).buffers i) =
      ((sys.buffers i).snapshot ((cfg i).snapshotSize 0)).2 := Function.update_self i _ _
  have hother : ∀ j, j ≠ i →
      (sys.snapshotSource cfg snapshots i sources).buffers j = sys.buffers j :=
    fun j hj => Function.update_of_ne hj _ _
  have hseries := SeriesBuffer.snapshot_reserved (h.unused i)
  have hold : ∀ s ∈ snapshots,
      ((sys.snapshotSource cfg snapshots i sources).buffers s.source).inflight = s.series := by
    intro s hs
    rw [hother _ (hnot s hs), hreserved.series s hs]
  refine h.rearrange (by simp [hscrape]) (by simp [Exporting.snapshotSource]) rfl rfl rfl
    (fun j => ?_) ?_ (fun j hj => ?_) (fun j => ?_)
  · by_cases hj : j = i
    · rw [hj, hthis]
      exact (sys.buffers i).snapshot_contents _
    · rw [hother j hj]
      exact ⟨rfl, rfl⟩
  · have hparts : (sys.snapshotSource cfg snapshots i sources).scrape.parts =
        (if ((sys.buffers i).snapshot ((cfg i).snapshotSize 0)).1 = [] then snapshots
          else snapshots ++ [⟨i, ((sys.buffers i).snapshot ((cfg i).snapshotSize 0)).1⟩],
          sources) := rfl
    rw [hparts]
    split
    · exact ⟨hreserved.nodup.sublist ((List.sublist_cons_self i sources).append_left _), hold⟩
    · refine ⟨by simpa using hreserved.nodup, fun s hs => ?_⟩
      rcases List.mem_append.mp hs with hs | hs
      · exact hold s hs
      · rw [List.mem_singleton.mp hs, hthis, hseries]
  · by_cases hi : j = i
    · rw [hi] at hj ⊢
      rw [hthis, SeriesBuffer.snapshot_nonpos hj]
      exact h.unused i hj
    · rw [hother j hi]
      exact h.unused j hj
  · by_cases hj : j = i
    · have htaken : (sys.snapshotSource cfg snapshots i sources).taken i = sys.taken i ++
          [((sys.buffers i).snapshot ((cfg i).snapshotSize 0)).1] := Function.update_self i _ _
      rw [hj, hthis, htaken, hseries]
      exact (h.taken i).concat fun hne => SeriesBuffer.snapshot_of_reserved hne
    · have htaken : (sys.snapshotSource cfg snapshots i sources).taken j = sys.taken j :=
        Function.update_of_ne hj _ _
      rw [hother j hj, htaken]
      exact h.taken j

theorem Consistent.written (h : Consistent cfg sys) (hscrape : sys.scrape = .writing snapshots) :
    Consistent cfg
      { sys with scrape := .committing snapshots, written := sys.written ++ [snapshots] } := by
  have hreserved : Reserved sys.buffers snapshots [] := by
    have := h.reserved
    rwa [hscrape] at this
  refine ⟨h.max, fun i => ?_, hreserved, h.unused, h.taken⟩
  have hold := h.kept i
  rw [exported_eq (by simp [hscrape])] at hold
  have hsame : Exporting.exported
      { sys with scrape := .committing snapshots, written := sys.written ++ [snapshots] } i =
      seriesOf i sys.written.flatten ++ (sys.buffers i).contents := by
    simp only [exported, uncommitted, List.flatten_append, List.flatten_singleton,
      seriesOf_append, SeriesBuffer.contents]
    rcases hreserved.seriesOf_eq i with he | he
    · rw [he, List.drop_length, List.append_nil, List.append_assoc]
    · rw [he, List.append_nil, List.length_nil, List.drop_zero, List.append_assoc]
  rw [hsame]
  exact hold

theorem next_commit {s : SourceSnapshot n} (h : sys.scrape = .committing (s :: snapshots)) :
    sys.next cfg .commit =
      { sys.setBuffer s.source ((sys.buffers s.source).commit s.series.length).2 with
        scrape := .committing snapshots
        taken := Function.update sys.taken s.source [] } := by
  simp only [next, h]

theorem exported_commit {s : SourceSnapshot n} (hscrape : sys.scrape = .committing (s :: snapshots))
    (hreserved : Reserved sys.buffers (s :: snapshots) []) (i : Fin n) :
    (sys.next cfg .commit).exported i = sys.exported i := by
  have hempty : ((sys.buffers s.source).commit s.series.length).2.inflight = [] :=
    SeriesBuffer.commit_all (by rw [hreserved.series s List.mem_cons_self])
  rw [next_commit hscrape, exported_committing rfl, exported_committing hscrape]
  simp only [buffers_setBuffer]
  split
  · next hi =>
    rw [hi, seriesOf_cons_self hreserved, List.drop_length, hempty, List.drop_nil]
    rfl
  · next hi =>
    rw [seriesOf_cons_of_ne (Ne.symm hi)]
    rfl

theorem Consistent.committed {s : SourceSnapshot n} (h : Consistent cfg sys)
    (hscrape : sys.scrape = .committing (s :: snapshots)) :
    Consistent cfg (sys.next cfg .commit) := by
  have hreserved : Reserved sys.buffers (s :: snapshots) [] := by
    have := h.reserved
    rwa [hscrape] at this
  have hnodup := hreserved.nodup
  rw [List.append_nil, List.map_cons, List.nodup_cons] at hnodup
  have hexported : ∀ i, (sys.next cfg .commit).exported i = sys.exported i :=
    fun i => exported_commit hscrape hreserved i
  rw [next_commit hscrape] at hexported ⊢
  refine ⟨fun i => ?_, fun i => ?_, ⟨?_, fun s' hs' => ?_⟩, fun i hi => ?_, fun i => ?_⟩
  · rw [← h.max i]
    simp only [buffers_setBuffer]
    split
    · next hi => rw [hi]; rfl
    · rfl
  · rw [hexported]
    exact h.kept i
  · simpa [Scrape.parts] using hnodup.2
  · have hne : s'.source ≠ s.source := fun he => hnodup.1 (he ▸ List.mem_map_of_mem hs')
    simp only [buffers_setBuffer, if_neg hne]
    exact hreserved.series s' (List.mem_cons_of_mem s hs')
  · simp only [buffers_setBuffer]
    split
    · exact SeriesBuffer.commit_all (by rw [hreserved.series s List.mem_cons_self])
    · exact h.unused i hi
  · simp only [buffers_setBuffer, Function.update_apply]
    split
    · exact ⟨0, 0, rfl⟩
    · exact h.taken i

/-- **Every step keeps the account.** -/
theorem Consistent.next (h : Consistent cfg sys) (step : ExportStep n) :
    Consistent cfg (sys.next cfg step) := by
  have hnothing : Reserved sys.buffers [] [] := ⟨List.nodup_nil, fun _ hs => by cases hs⟩
  cases step with
  | enqueue i series => exact h.enqueue i series
  | gather =>
    cases hscrape : sys.scrape with
    | idle =>
      simp only [Exporting.next, hscrape]
      exact h.rearrange (by simp [hscrape]) (by simp) rfl rfl rfl (fun _ => ⟨rfl, rfl⟩)
        ⟨List.nodup_finRange n, hnothing.series⟩ h.unused h.taken
    | collecting _ _ | writing _ | committing _ =>
      simp only [Exporting.next, hscrape]
      exact h
  | snapshot =>
    cases hscrape : sys.scrape with
    | collecting snapshots sources =>
      simp only [Exporting.next, hscrape]
      cases sources with
      | cons i sources => exact h.snapshotSource hscrape
      | nil =>
        have hreserved := h.reserved
        rw [hscrape] at hreserved
        exact h.rearrange (by simp [hscrape]) (by simp) rfl rfl rfl (fun _ => ⟨rfl, rfl⟩)
          hreserved h.unused h.taken
    | idle | writing _ | committing _ =>
      simp only [Exporting.next, hscrape]
      exact h
  | write success =>
    cases hscrape : sys.scrape with
    | writing snapshots =>
      simp only [Exporting.next, hscrape]
      cases success with
      | true => exact h.written hscrape
      | false =>
        exact h.rearrange (by simp [hscrape]) (by simp) rfl rfl rfl (fun _ => ⟨rfl, rfl⟩)
          hnothing h.unused h.taken
    | idle | collecting _ _ | committing _ =>
      simp only [Exporting.next, hscrape]
      exact h
  | commit =>
    cases hscrape : sys.scrape with
    | committing snapshots =>
      cases snapshots with
      | cons s snapshots => exact h.committed hscrape
      | nil =>
        -- every snapshot is committed
        have hexported : ∀ j, Exporting.exported { sys with scrape := .idle } j =
            sys.exported j := by
          intro j
          rw [exported_committing hscrape]
          rfl
        simp only [Exporting.next, hscrape]
        refine ⟨h.max, fun j => ?_, hnothing, h.unused, h.taken⟩
        rw [hexported]
        exact h.kept j
    | idle | collecting _ _ | writing _ =>
      simp only [Exporting.next, hscrape]
      exact h

theorem consistent_after (cfg : Fin n → Config) (steps : List (ExportStep n)) :
    Consistent cfg (after cfg steps) := by
  have hfold : ∀ sys, Consistent cfg sys →
      Consistent cfg (steps.foldl (Exporting.next cfg) sys) := by
    induction steps with
    | nil => exact fun _ h => h
    | cons step steps ih => exact fun sys h => ih _ (h.next step)
  exact hfold _ (consistent_start cfg)

/-- **Every series is exported once and in order.** However the steps of the receivers and of the
scrapes are interleaved, what was written from a source and what it holds besides is what was
enqueued there, without as many series as were reported dropped. The buffer never holds more than
it may, and the snapshots of a source between two commits are the same. -/
theorem exported_once (cfg : Fin n → Config) (steps : List (ExportStep n)) (i : Fin n) :
    let sys := after cfg steps
    let b := sys.buffers i
    LeftOut (sys.exported i) (sys.enqueued i) (sys.dropped i) ∧
    ((∀ snapshots, sys.scrape ≠ .committing snapshots) →
      LeftOut (seriesOf i sys.written.flatten ++ (b.inflight ++ b.queued)) (sys.enqueued i)
        (sys.dropped i)) ∧
    b.inflight.length + b.queued.length ≤ (cfg i).bufferMaxEvents.toNat ∧
    Repeats (sys.taken i) b.inflight := by
  intro sys b
  have h : Consistent cfg sys := consistent_after cfg steps
  refine ⟨h.kept i, fun hphase => ?_, ?_, h.taken i⟩
  · have hkept := h.kept i
    rwa [exported_eq hphase] at hkept
  · rw [← h.max i]
    exact b.bounded

end Exporting

end Prom
