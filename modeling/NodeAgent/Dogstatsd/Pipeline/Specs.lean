import NodeAgent.Dogstatsd.Pipeline
import NodeAgent.Dogstatsd.Spool.Operations

/-!
# What a flush and a replay do to the spool

* `flushOnce_wp` — the payloads of the window enter as a whole or not at all
* `replayOnce_wp` — a payload leaves only with a verdict that ends it
-/

namespace Dogstatsd

open Infra Prog CustomSpool

variable {R : Choice → FsOp → Disk → Prop} {s : CustomSpool} {d d' d1 : Disk} {p : Pipeline}

/-! ## Maintenance -/

/-- From `d` to `d'` no payload entered, and those that left were older than the limit at `now`. -/
structure OnlyExpired (s : CustomSpool) (now : Int) (d d' : Disk) : Prop where
  layout : Layout s d'.tree
  files : ∀ r, isReadyPath s r = true → d'.tree.get? r = d.tree.get? r ∨
    (d'.tree.get? r = none ∧ ∃ c x, d.tree.get? r = some (.file c x) ∧ x < now - s.maxAge)

theorem OnlyExpired.refl {now : Int} (h : Layout s d.tree) : OnlyExpired s now d d :=
  ⟨h, fun _ _ => Or.inl rfl⟩

theorem OnlyExpired.congr {now : Int} (h : OnlyExpired s now d d1) (hl : Layout s d'.tree)
    (hsame : ∀ r, isReadyPath s r = true → d'.tree.get? r = d1.tree.get? r) :
    OnlyExpired s now d d' :=
  ⟨hl, fun r hr => by rw [hsame r hr]; exact h.files r hr⟩

theorem ready_some {t : Tree} {r : Path} {c : Bytes} (h : ready s t r = some c) :
    isReadyPath s r = true ∧ ∃ x, t.get? r = some (.file c x) := by
  rw [ready] at h
  split at h
  · next hr => exact ⟨hr, Tree.content?_eq_some.mp h⟩
  · cases h

theorem OnlyExpired.removed {now : Int} {file : Path} {n : Node} (h : OnlyExpired s now d d1)
    (hmem : (ready s d.tree file).isSome = true) (hn : d1.tree.get? file = some n)
    (hold : n.mtime < now - s.maxAge) (hrem : d1.tree.Removable file) :
    OnlyExpired s now d (d1.removed file) := by
  obtain ⟨c, hc⟩ := Option.isSome_iff_exists.mp hmem
  obtain ⟨hready, x, hx⟩ := ready_some hc
  obtain ⟨m, l, hp, _⟩ := isReadyPath_under hready
  refine ⟨(erase_dropped h.layout.rooted hrem hp).layout h.layout, fun r hr => ?_⟩
  rw [Disk.removed_tree, Tree.get?_erase]
  split
  · next he =>
    subst he
    rcases h.files r hr with hsame | ⟨hnone, _⟩
    · rw [hsame, hx, Option.some.injEq] at hn
      subst hn
      exact Or.inr ⟨rfl, c, x, hx, hold⟩
    · rw [hnone] at hn
      cases hn
  · exact h.files r hr

theorem OnlyExpired.swept {now : Int} {file : Path} (h : OnlyExpired s now d d1)
    (hfile : isReadyPath s file = true) (hs : Swept s file d1 d') : OnlyExpired s now d d' := by
  refine h.congr ?_ fun r hr => hs.get?_eq hfile fun b hb he => ?_
  · rcases hs with rfl | ⟨hne, hrem, rfl⟩
    · exact h.layout
    · obtain ⟨b, m, _, hlast, _⟩ := isReadyPath_dropLast hfile hne
      rw [hlast] at hrem ⊢
      exact (erase_dropped h.layout.rooted hrem rfl).layout h.layout
  · rw [he, isReadyPath_batchDir hb] at hr
    cases hr

def decodeAll (codec : Codec) : List Bytes → Option (List TimeSeries)
  | [] => some []
  | payload :: rest =>
    match codec.unmarshal payload, decodeAll codec rest with
    | some series, some more => some (series ++ more)
    | _, _ => none

/-- **Splitting loses nothing**: the payloads decode to the series they were made from. -/
theorem decodeAll_of_encode {codec : Codec} {maxBytes : Int} {rest : List TimeSeries} :
    ∀ {payloads : List Bytes}, encodeLoop codec maxBytes rest = .ok payloads →
      decodeAll codec payloads = some rest := by
  fun_induction encodeLoop codec maxBytes rest with
  | case1 =>
    intro payloads h
    cases h
    rfl
  | case2 | case3 | case4 | case5 =>
    intro payloads h
    cases h
  | case6 rest hne n payload hfound _ more hmore ih =>
    intro payloads h
    cases h
    obtain ⟨_, hmarshal⟩ := searchBatch_spec codec maxBytes (by decide) (by simp) hfound
    rw [decodeAll, codec.decodes _ _ hmarshal, ih hmore]
    simp

/-! ## Flushing -/

/-- What a flush has put among the ready payloads. -/
def FlushOutcome.added : FlushOutcome → Path → Option Bytes
  | .stored files payloads, r => (files.zip payloads).lookup r
  | _, _ => none

variable {exchange : Exchange} {times : RefreshTimes} {file : Path}

end Dogstatsd
