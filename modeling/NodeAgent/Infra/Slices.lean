import Mathlib.Data.List.Basic

/-!
# Indices and slices

Expressions of Go that panic when they are out of range. The upper bound of a slice may go as far
as its capacity, which is not less than its length: code that stays within the length is safe.
-/

namespace Infra

inductive RuntimeError where
  | indexOutOfRange (index length : Nat)
  | sliceOutOfRange (low high length : Nat)
  deriving DecidableEq

/-- An expression that may panic. -/
abbrev Checked (α : Type) := Except RuntimeError α

variable {α β : Type}

/-- `xs[i]` -/
def elemAt (xs : List α) (i : Nat) : Checked α :=
  match xs[i]? with
  | some a => .ok a
  | none => .error (.indexOutOfRange i xs.length)

/-- `xs[low:high]` -/
def slice (xs : List α) (low high : Nat) : Checked (List α) :=
  if low ≤ high ∧ high ≤ xs.length then .ok ((xs.drop low).take (high - low))
  else .error (.sliceOutOfRange low high xs.length)

/-- `xs[low:]` -/
def sliceFrom (xs : List α) (low : Nat) : Checked (List α) := slice xs low xs.length

theorem elemAt_eq_ok {xs : List α} {i : Nat} (h : i < xs.length) (default : α) :
    elemAt xs i = .ok (xs.getD i default) := by
  rw [elemAt, List.getD_eq_getElem?_getD, List.getElem?_eq_getElem h]
  rfl

theorem slice_eq_ok {xs : List α} {low high : Nat} (hlow : low ≤ high) (hhigh : high ≤ xs.length) :
    slice xs low high = .ok ((xs.drop low).take (high - low)) :=
  if_pos ⟨hlow, hhigh⟩

theorem sliceFrom_eq_ok {xs : List α} {low : Nat} (h : low ≤ xs.length) :
    sliceFrom xs low = .ok (xs.drop low) := by
  rw [sliceFrom, slice_eq_ok h (Nat.le_refl _), List.take_of_length_le (by simp)]

/-- The expression does not panic. -/
def NoPanic (x : Checked α) : Prop := ∃ a, x = .ok a

theorem noPanic_ok (a : α) : NoPanic (.ok a : Checked α) := ⟨a, rfl⟩

theorem noPanic_bind {x : Checked α} {f : α → Checked β} (hx : NoPanic x)
    (hf : ∀ a, x = .ok a → NoPanic (f a)) : NoPanic (x >>= f) := by
  obtain ⟨a, rfl⟩ := hx
  exact hf a rfl

theorem not_noPanic_error (e : RuntimeError) : ¬ NoPanic (.error e : Checked α) :=
  fun ⟨_, h⟩ => nomatch h

theorem noPanic_bind_pure {x : Checked α} {f : α → β} :
    NoPanic (x >>= fun a => pure (f a)) ↔ NoPanic x := by
  cases x with
  | ok a => exact iff_of_true (noPanic_ok (f a)) (noPanic_ok a)
  | error e => exact iff_of_false (not_noPanic_error e) (not_noPanic_error e)

theorem noPanic_elemAt_zero (xs : List α) : NoPanic (elemAt xs 0) ↔ xs ≠ [] := by
  cases xs with
  | nil => exact iff_of_false (not_noPanic_error _) (fun h => h rfl)
  | cons x xs => exact iff_of_true (noPanic_ok x) (List.cons_ne_nil x xs)

end Infra
