import Mathlib.Data.List.Induction
import Mathlib.Logic.Basic

/-!
# Sequences of events

A state that events change one after the other.

* `everyState_iff_everyStep` — a condition that is exact for one step is exact for a run
* `Since` — an event has happened, and none that ends its effect has come after it
-/

namespace Infra

section

variable {σ α : Type} (next : σ → α → σ)

def EveryState (P : σ → Prop) : σ → List α → Prop
  | s, [] => P s
  | s, a :: as => P s ∧ EveryState P (next s a) as

/-- Every event of a run meets a condition, in the state it finds. -/
def EveryStep (C : σ → α → Prop) : σ → List α → Prop
  | _, [] => True
  | s, a :: as => C s a ∧ EveryStep C (next s a) as

instance decidableEveryStep {C : σ → α → Prop} [∀ s a, Decidable (C s a)] :
    ∀ (s : σ) (as : List α), Decidable (EveryStep next C s as)
  | _, [] => .isTrue trivial
  | s, a :: as => @instDecidableAnd (C s a) _ _ (decidableEveryStep (next s a) as)

variable {next} {P I : σ → Prop} {C D : σ → α → Prop}

theorem EveryState.head : ∀ {as : List α} {s : σ}, EveryState next P s as → P s
  | [], _, h => h
  | _ :: _, _, h => h.1

theorem everyState_iff_last (hback : ∀ s a, P (next s a) → P s) :
    ∀ (as : List α) {s : σ}, EveryState next P s as ↔ P (as.foldl next s)
  | [], _ => Iff.rfl
  | a :: as, s => by
    rw [EveryState, everyState_iff_last hback as]
    refine ⟨fun h => h.2, fun h => ⟨hback s a ?_, h⟩⟩
    exact ((everyState_iff_last hback as).mpr h).head

theorem everyStep_imp (hkeep : ∀ s a, I s → C s a → I (next s a))
    (hgood : ∀ s a, I s → C s a → D s a) :
    ∀ (as : List α) {s : σ}, I s → EveryStep next C s as → EveryStep next D s as
  | [], _, _, _ => trivial
  | a :: as, s, hI, h =>
    ⟨hgood s a hI h.1, everyStep_imp hkeep hgood as (hkeep s a hI h.1) h.2⟩

theorem everyState_of_everyStep (hkeep : ∀ s a, I s → C s a → I (next s a))
    (hgood : ∀ s, I s → P s) :
    ∀ (as : List α) {s : σ}, I s → EveryStep next C s as → EveryState next P s as
  | [], s, hI, _ => hgood s hI
  | a :: as, s, hI, h =>
    ⟨hgood s hI, everyState_of_everyStep hkeep hgood as (hkeep s a hI h.1) h.2⟩

theorem foldl_of_everyStep (hkeep : ∀ s a, I s → C s a → I (next s a)) :
    ∀ (as : List α) {s : σ}, I s → EveryStep next C s as → I (as.foldl next s)
  | [], _, hI, _ => hI
  | a :: as, s, hI, h => foldl_of_everyStep hkeep as (hkeep s a hI h.1) h.2

theorem everyStep_of_invariant (hkeep : ∀ s a, I s → I (next s a)) (hgood : ∀ s a, I s → D s a) :
    ∀ (as : List α) {s : σ}, I s → EveryStep next D s as
  | [], _, _ => trivial
  | a :: as, s, hI => ⟨hgood s a hI, everyStep_of_invariant hkeep hgood as (hkeep s a hI)⟩

theorem everyStep_congr (hkeep : ∀ s a, I s → D s a → I (next s a))
    (hiff : ∀ s a, I s → (C s a ↔ D s a)) :
    ∀ (as : List α) {s : σ}, I s → (EveryStep next C s as ↔ EveryStep next D s as)
  | [], _, _ => Iff.rfl
  | a :: as, s, hI => by
    by_cases hD : D s a
    · exact and_congr (hiff s a hI) (everyStep_congr hkeep hiff as (hkeep s a hI hD))
    · exact iff_of_false (fun h => hD ((hiff s a hI).mp h.1)) fun h => hD h.1

theorem everyStep_congr_of {H : σ → α → Prop} (hkeep : ∀ s a, I s → H s a → D s a → I (next s a))
    (hiff : ∀ s a, I s → H s a → (C s a ↔ D s a)) :
    ∀ (as : List α) {s : σ}, I s → EveryStep next H s as →
      (EveryStep next C s as ↔ EveryStep next D s as)
  | [], _, _, _ => Iff.rfl
  | a :: as, s, hI, hH => by
    by_cases hD : D s a
    · exact and_congr (hiff s a hI hH.1)
        (everyStep_congr_of hkeep hiff as (hkeep s a hI hH.1 hD) hH.2)
    · exact iff_of_false (fun h => hD ((hiff s a hI hH.1).mp h.1)) fun h => hD h.1

theorem everyStep_events {E : α → Prop} : ∀ (as : List α) {s : σ},
    EveryStep next (fun _ a => E a) s as ↔ ∀ a ∈ as, E a
  | [], _ => iff_of_true trivial fun _ h => absurd h List.not_mem_nil
  | _ :: as, _ => by
    rw [List.forall_mem_cons, EveryStep, everyStep_events as]

/-- **A condition that is exact for one step is exact for a run**, among the runs whose events meet
another condition. -/
theorem everyState_iff_everyStep_of {H : σ → α → Prop}
    (hkeep : ∀ s a, I s → H s a → P s → I (next s a))
    (hiff : ∀ s a, I s → H s a → P s → (P (next s a) ↔ C s a)) :
    ∀ (as : List α) {s : σ}, I s → P s → EveryStep next H s as →
      (EveryState next P s as ↔ EveryStep next C s as)
  | [], _, _, hP, _ => iff_of_true hP trivial
  | a :: as, s, hI, hP, hH => by
    by_cases hC : C s a
    · have hnext := (hiff s a hI hH.1 hP).mpr hC
      exact and_congr (iff_of_true hP hC)
        (everyState_iff_everyStep_of hkeep hiff as (hkeep s a hI hH.1 hP) hnext hH.2)
    · refine iff_of_false (fun h => hC ?_) fun h => hC h.1
      exact (hiff s a hI hH.1 hP).mp h.2.head

theorem everyState_iff_everyStep (hkeep : ∀ s a, I s → I (next s a))
    (hiff : ∀ s a, I s → P s → (P (next s a) ↔ C s a)) (as : List α) {s : σ} (hI : I s) (hP : P s) :
    EveryState next P s as ↔ EveryStep next C s as :=
  everyState_iff_everyStep_of (H := fun _ _ => True) (fun s a hI _ _ => hkeep s a hI)
    (fun s a hI _ => hiff s a hI) as hI hP ((everyStep_events as).mpr fun _ _ => trivial)

/-- **A run ends badly if and only if it started so or an event did not meet the condition**, when
this holds for one event. -/
theorem last_iff_not_everyStep (hkeep : ∀ s a, I s → I (next s a))
    (hiff : ∀ s a, I s → (P (next s a) ↔ P s ∨ ¬ C s a)) :
    ∀ (as : List α) {s : σ}, I s →
      I (as.foldl next s) ∧ (P (as.foldl next s) ↔ P s ∨ ¬ EveryStep next C s as)
  | [], _, hI => ⟨hI, by simp [EveryStep]⟩
  | a :: as, s, hI => by
    obtain ⟨hlast, hbad⟩ := last_iff_not_everyStep hkeep hiff as (hkeep s a hI)
    refine ⟨hlast, hbad.trans ?_⟩
    rw [hiff s a hI, EveryStep, not_and_or, or_assoc]

/-! ### The history of an event -/

theorem forall_split_nil {H : List α → α → Prop} :
    ∀ pre a rest, ([] : List α) = pre ++ a :: rest → H pre a :=
  fun _ _ _ h => by simp at h

theorem forall_split_cons {H : List α → α → Prop} {b : α} {as : List α} :
    (∀ pre a rest, b :: as = pre ++ a :: rest → H pre a) ↔
      H [] b ∧ ∀ pre a rest, as = pre ++ a :: rest → H (b :: pre) a := by
  constructor
  · intro h
    refine ⟨h [] b as rfl, fun pre a rest hsplit => h (b :: pre) a rest ?_⟩
    rw [hsplit]
    rfl
  · rintro ⟨hhead, htail⟩ pre a rest h
    cases pre with
    | nil =>
      cases h
      exact hhead
    | cons c pre =>
      cases h
      exact htail pre a rest rfl

theorem everyStep_iff_split : ∀ {as : List α} {s : σ}, EveryStep next C s as ↔
    ∀ pre a rest, as = pre ++ a :: rest → C (pre.foldl next s) a
  | [], _ => iff_of_true trivial forall_split_nil
  | a :: as, s => by
    rw [EveryStep, everyStep_iff_split, forall_split_cons]
    rfl

/-- What holds at the start, and is kept by each event that meets a condition on it and on the
events before it, holds after every part of a run whose events meet the condition. -/
theorem holds_of_history {J : List α → Prop} {H : List α → α → Prop} (hnil : J [])
    (hkeep : ∀ pre a, J pre → H pre a → J (pre ++ [a])) {as : List α}
    (h : ∀ pre a rest, as = pre ++ a :: rest → H pre a) (pre rest : List α)
    (hsplit : as = pre ++ rest) : J pre := by
  induction pre using List.reverseRecOn generalizing rest with
  | nil => exact hnil
  | append_singleton pre a ih =>
    have hcons : as = pre ++ a :: rest := by rw [hsplit, List.append_assoc]; rfl
    exact hkeep pre a (ih (a :: rest) hcons) (h pre a rest hcons)

variable (next) in
/-- An event of the run meets `Mark`, and none after it meets `Clear`. -/
def Since (Mark Clear : σ → α → Prop) : σ → List α → Prop
  | _, [] => False
  | s, a :: as => (Mark s a ∧ EveryStep next (fun s b => ¬ Clear s b) (next s a) as) ∨
      Since Mark Clear (next s a) as

theorem everyStep_concat : ∀ {as : List α} {s : σ} {a : α}, EveryStep next C s (as ++ [a]) ↔
    EveryStep next C s as ∧ C (as.foldl next s) a
  | [], _, _ => by simp [EveryStep]
  | b :: as, s, a => by
    rw [List.cons_append, EveryStep, EveryStep, everyStep_concat, and_assoc]
    rfl

theorem since_concat {Mark Clear : σ → α → Prop} : ∀ {as : List α} {s : σ} {a : α},
    Since next Mark Clear s (as ++ [a]) ↔
      Mark (as.foldl next s) a ∨ Since next Mark Clear s as ∧ ¬ Clear (as.foldl next s) a
  | [], _, _ => by simp [Since, EveryStep]
  | b :: as, s, a => by
    rw [List.cons_append, Since, Since, everyStep_concat, since_concat, List.foldl_cons,
      or_left_comm, or_and_right, and_assoc]

theorem not_since_of_everyStep {Mark Clear : σ → α → Prop} {as : List α} {s : σ}
    (h : EveryStep next (fun s a => ¬ Mark s a) s as) (pre rest : List α)
    (hsplit : as = pre ++ rest) : ¬ Since next Mark Clear s pre := by
  rw [everyStep_iff_split] at h
  refine holds_of_history (J := fun pre => ¬ Since next Mark Clear s pre) id ?_ h pre rest hsplit
  intro pre a hpre hmark
  rw [since_concat]
  rintro (hnow | ⟨hbefore, -⟩)
  · exact hmark hnow
  · exact hpre hbefore

theorem foldl_le_sub_countP (size : σ → Nat) (counts : α → Bool)
    (hkeep : ∀ s a, I s → I (next s a)) (hle : ∀ s a, I s → size (next s a) ≤ size s)
    (hlt : ∀ s a, I s → counts a = true → size (next s a) ≤ size s - 1) :
    ∀ (as : List α) {s : σ}, I s → size (as.foldl next s) ≤ size s - as.countP counts
  | [], _, _ => Nat.le_refl _
  | a :: as, s, hI => by
    have ih := foldl_le_sub_countP size counts hkeep hle hlt as (hkeep s a hI)
    rw [List.foldl_cons, List.countP_cons]
    split
    · next ha =>
      have := hlt s a hI ha
      omega
    · have := hle s a hI
      omega

end

/-! ## A list that is changed -/

section

variable {α : Type} {l : List α} {i : Nat} {a b : α}

theorem getElem?_concat_of_some (h : l[i]? = some b) : (l ++ [a])[i]? = some b :=
  (List.getElem?_append_left (List.getElem?_eq_some_iff.mp h).1).trans h

theorem of_getElem?_concat (h : (l ++ [a])[i]? = some b) :
    l[i]? = some b ∨ i = l.length ∧ b = a := by
  rcases Nat.lt_or_ge i l.length with hlt | hge
  · exact .inl ((List.getElem?_append_left hlt).symm.trans h)
  · rw [List.getElem?_append_right hge, List.getElem?_singleton] at h
    split at h
    · next hi =>
      cases h
      exact .inr ⟨by omega, rfl⟩
    · cases h

theorem getElem?_set_of_some (h : l[i]? = some a) (b : α) (j : Nat) :
    (l.set i b)[j]? = if j = i then some b else l[j]? := by
  have hlt : i < l.length := (List.getElem?_eq_some_iff.mp h).1
  rw [List.getElem?_set]
  by_cases hj : j = i
  · rw [if_pos hj.symm, if_pos hlt, if_pos hj]
  · rw [if_neg (Ne.symm hj), if_neg hj]

end

end Infra
