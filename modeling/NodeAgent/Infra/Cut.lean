import Mathlib.Data.List.Basic

/-!
# Cutting a string at a separator

`bytes.Cut` of Go: what comes before the first separator, and what comes after it.

* `exists_cut_of_infix` — where the part that should be cut off has the separator in it
-/

namespace Infra

variable {α : Type} [DecidableEq α]

/-- `bytes.Cut`; without a separator there is nothing to return. -/
def cut (sep : List α) : List α → Option (List α × List α)
  | [] => if sep = [] then some ([], []) else none
  | a :: s =>
    if sep.isPrefixOf (a :: s) then some ([], (a :: s).drop sep.length)
    else (cut sep s).map fun (before, after) => (a :: before, after)

theorem cut_append (sep after : List α) : cut sep (sep ++ after) = some ([], after) := by
  cases hs : sep ++ after with
  | nil =>
    obtain ⟨rfl, rfl⟩ := List.append_eq_nil_iff.mp hs
    rfl
  | cons a s =>
    have hprefix : sep.isPrefixOf (a :: s) = true := by
      rw [← hs, List.isPrefixOf_iff_prefix]
      exact List.prefix_append sep after
    rw [cut, if_pos hprefix, ← hs, List.drop_left]

theorem cut_cons {sep s : List α} {a : α} (h : ¬ sep <+: a :: s) :
    cut sep (a :: s) = (cut sep s).map fun (before, after) => (a :: before, after) := by
  rw [cut, if_neg (by rwa [List.isPrefixOf_iff_prefix])]

/-! ## A separator of one element -/

variable {x y : α}

theorem cut_append_cons : ∀ {before : List α} (after : List α), x ∉ before →
    cut [x] (before ++ x :: after) = some (before, after)
  | [], after, _ => cut_append [x] after
  | a :: before, after, h => by
    rw [List.mem_cons, not_or] at h
    have hne : ¬ [x] <+: a :: (before ++ x :: after) := by
      rw [List.cons_prefix_cons]
      exact fun hp => h.1 hp.1
    rw [List.cons_append, cut_cons hne, cut_append_cons after h.2]
    rfl

theorem cut_eq_none : ∀ {s : List α}, x ∉ s → cut [x] s = none
  | [], _ => rfl
  | a :: s, h => by
    rw [List.mem_cons, not_or] at h
    have hne : ¬ [x] <+: a :: s := by
      rw [List.cons_prefix_cons]
      exact fun hp => h.1 hp.1
    rw [cut_cons hne, cut_eq_none h.2]
    rfl

/-! ## A separator of two elements -/

theorem cut_append_pair (hxy : x ≠ y) : ∀ {before : List α} (after : List α),
    ¬ [x, y] <:+: before → cut [x, y] (before ++ x :: y :: after) = some (before, after)
  | [], after, _ => cut_append [x, y] after
  | a :: before, after, h => by
    have hne : ¬ [x, y] <+: a :: (before ++ x :: y :: after) := by
      rw [List.cons_prefix_cons]
      rintro ⟨rfl, hp⟩
      -- the second element is in the part before, or it is the separator that starts
      cases before with
      | nil => exact hxy (List.cons_prefix_cons.mp hp).1.symm
      | cons b before =>
        obtain ⟨rfl, _⟩ := List.cons_prefix_cons.mp hp
        exact h ⟨[], before, rfl⟩
    have hrest : ¬ [x, y] <:+: before := fun hi => h (List.infix_cons hi)
    rw [List.cons_append, cut_cons hne, cut_append_pair hxy after hrest]
    rfl

theorem exists_cut_append (sep after : List α) : ∀ before : List α, ∃ b r,
    cut sep (before ++ (sep ++ after)) = some (b, r) ∧ b.length ≤ before.length
  | [] => ⟨[], after, cut_append sep after, Nat.le_refl 0⟩
  | a :: before => by
    by_cases hp : sep <+: a :: (before ++ (sep ++ after))
    · obtain ⟨rest, hrest⟩ := hp
      refine ⟨[], rest, ?_, Nat.zero_le _⟩
      rw [List.cons_append, ← hrest, cut_append]
    · obtain ⟨b, r, hcut, hle⟩ := exists_cut_append sep after before
      refine ⟨a :: b, r, ?_, Nat.succ_le_succ hle⟩
      rw [List.cons_append, cut_cons hp, hcut]
      rfl

theorem exists_cut_of_infix {sep before : List α} (hsep : sep ≠ []) (h : sep <:+: before)
    (after : List α) : ∃ b r, cut sep (before ++ after) = some (b, r) ∧
      b.length < before.length := by
  obtain ⟨p, q, rfl⟩ := h
  obtain ⟨b, r, hcut, hle⟩ := exists_cut_append sep (q ++ after) p
  refine ⟨b, r, ?_, ?_⟩
  · rw [← hcut, List.append_assoc, List.append_assoc]
  · have := List.length_pos_iff.mpr hsep
    rw [List.length_append, List.length_append]
    omega

end Infra
