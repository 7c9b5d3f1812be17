import Mathlib.Data.List.Basic

/-!
# Items with a separator

Items can be told apart in a string if none of them has the separator in it.

* `terminated_inj` — a list of items with a separator after each
-/

namespace Infra

variable {α : Type} {sep : α}

theorem mem_intercalate {x : α} : ∀ {items : List (List α)}, x ∈ [sep].intercalate items →
    x = sep ∨ ∃ item ∈ items, x ∈ item
  | [], h => by cases h
  | [item], h => by
    rw [List.intercalate_singleton] at h
    exact .inr ⟨item, List.mem_singleton_self item, h⟩
  | item :: next :: items, h => by
    rw [List.intercalate_cons_cons, List.mem_append, List.mem_append] at h
    rcases h with (h | h) | h
    · exact .inr ⟨item, List.mem_cons_self, h⟩
    · exact .inl (List.mem_singleton.mp h)
    · rcases mem_intercalate h with h | ⟨later, hlater, hx⟩
      · exact .inl h
      · exact .inr ⟨later, List.mem_cons_of_mem _ hlater, hx⟩

theorem append_cons_inj : ∀ {a b x y : List α}, sep ∉ a → sep ∉ b →
    a ++ sep :: x = b ++ sep :: y → a = b ∧ x = y
  | [], [], _, _, _, _, h => ⟨rfl, (List.cons.inj h).2⟩
  | [], c :: b, _, _, _, hb, h => by
    rw [List.nil_append, List.cons_append, List.cons.injEq] at h
    exact absurd (h.1 ▸ List.mem_cons_self) hb
  | c :: a, [], _, _, ha, _, h => by
    rw [List.nil_append, List.cons_append, List.cons.injEq] at h
    exact absurd (h.1 ▸ List.mem_cons_self) ha
  | c :: a, c' :: b, x, y, ha, hb, h => by
    rw [List.cons_append, List.cons_append, List.cons.injEq] at h
    rw [List.mem_cons, not_or] at ha hb
    obtain ⟨rfl, rfl⟩ := append_cons_inj ha.2 hb.2 h.2
    exact ⟨by rw [h.1], rfl⟩

/-- The items one after the other, with a separator after each. -/
def terminated (sep : α) (items : List (List α)) : List α := items.flatMap (· ++ [sep])

theorem terminated_cons (item : List α) (items : List (List α)) :
    terminated sep (item :: items) = item ++ sep :: terminated sep items := by
  rw [terminated, List.flatMap_cons, List.append_assoc]
  rfl

theorem append_flatMap_cons {β : Type} (text : β → List α) : ∀ (item : List α) (items : List β),
    item ++ items.flatMap (fun e => sep :: text e) ++ [sep] =
      terminated sep (item :: items.map text)
  | item, [] => by simp [terminated]
  | item, e :: items => by
    have ih := append_flatMap_cons text (text e) items
    rw [terminated_cons, List.map_cons, ← ih]
    simp

theorem terminated_inj : ∀ {l l' : List (List α)}, (∀ a ∈ l, sep ∉ a) → (∀ a ∈ l', sep ∉ a) →
    terminated sep l = terminated sep l' → l = l'
  | [], [], _, _, _ => rfl
  | [], a :: l', _, _, h => by
    rw [terminated_cons] at h
    simp [terminated] at h
  | a :: l, [], _, _, h => by
    rw [terminated_cons] at h
    simp [terminated] at h
  | a :: l, a' :: l', hl, hl', h => by
    rw [List.forall_mem_cons] at hl hl'
    rw [terminated_cons, terminated_cons] at h
    obtain ⟨rfl, hrest⟩ := append_cons_inj hl.1 hl'.1 h
    rw [terminated_inj hl.2 hl'.2 hrest]

/-! ## Items of which the last one has not ended -/

theorem terminated_concat (item : List α) (items : List (List α)) :
    terminated sep (items ++ [item]) = terminated sep items ++ (item ++ [sep]) := by
  rw [terminated, List.flatMap_append, List.flatMap_singleton, terminated]

theorem terminated_append_inj {l l' : List (List α)} {rest rest' : List α}
    (hl : ∀ a ∈ l, sep ∉ a) (hrest : sep ∉ rest) (hl' : ∀ a ∈ l', sep ∉ a) (hrest' : sep ∉ rest')
    (h : terminated sep l ++ rest = terminated sep l' ++ rest') : l = l' ∧ rest = rest' := by
  have hends : terminated sep (l ++ [rest]) = terminated sep (l' ++ [rest']) := by
    rw [terminated_concat, terminated_concat, ← List.append_assoc, h, List.append_assoc]
  have heq := terminated_inj (by simpa [or_imp, forall_and] using ⟨hl, hrest⟩)
    (by simpa [or_imp, forall_and] using ⟨hl', hrest'⟩) hends
  obtain ⟨hinit, hlast⟩ := List.append_inj' heq rfl
  exact ⟨hinit, (List.cons.inj hlast).1⟩

section

variable [DecidableEq α]

def openTail (sep : α) : List α → List α
  | [] => []
  | a :: l => if sep ∈ a :: l then openTail sep l else a :: l

theorem openTail_of_notMem {l : List α} (h : sep ∉ l) : openTail sep l = l := by
  cases l with
  | nil => rfl
  | cons a l => rw [openTail, if_neg h]

theorem openTail_append_cons (l : List α) : ∀ item : List α,
    openTail sep (item ++ sep :: l) = openTail sep l
  | [] => by rw [List.nil_append, openTail, if_pos List.mem_cons_self]
  | a :: item => by
    rw [List.cons_append, openTail, if_pos (by simp), openTail_append_cons l item]

theorem openTail_append {u : List α} (h : sep ∉ u) : ∀ l : List α,
    openTail sep (l ++ u) = openTail sep l ++ u
  | [] => openTail_of_notMem h
  | a :: l => by
    have hmem : sep ∈ a :: (l ++ u) ↔ sep ∈ a :: l := by simp [h]
    simp only [List.cons_append, openTail, hmem, openTail_append h l]
    split <;> rfl

theorem openTail_terminated {rest : List α} (h : sep ∉ rest) : ∀ items : List (List α),
    openTail sep (terminated sep items ++ rest) = rest
  | [] => openTail_of_notMem h
  | item :: items => by
    rw [terminated_cons, List.append_assoc, List.cons_append, openTail_append_cons,
      openTail_terminated h items]

end

end Infra
