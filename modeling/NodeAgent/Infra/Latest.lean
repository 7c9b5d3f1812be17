import NodeAgent.Infra.Dict

/-!
# The latest value

What happens to a table, and what is in it then. Not every value that is put counts.

* `lookup_apply` — a table that is changed action by action has the latest values
-/

namespace Infra

variable {κ ι ν : Type}

inductive Action (κ ν : Type) where
  | put (key : κ) (value : ν) (accepted : Bool)
  | get (key : κ)
  | drop (key : κ)

/-- The last value under the key that counts, unless the key was dropped since. -/
def latest [DecidableEq κ] (counts : ν → Bool → Bool) (key : κ) : List (Action κ ν) → Option ν
  | [] => none
  | .put k value accepted :: older =>
    if k = key ∧ counts value accepted = true then some value else latest counts key older
  | .get _ :: older => latest counts key older
  | .drop k :: older => if k = key then none else latest counts key older

def Action.apply [DecidableEq ι] (counts : ν → Bool → Bool) (written : κ → ι) (t : Dict ι ν) :
    Action κ ν → Dict ι ν
  | .put key value accepted => if counts value accepted then t.insert (written key) value else t
  | .get _ => t
  | .drop key => t.erase (written key)

theorem lookup_apply [DecidableEq κ] [DecidableEq ι] {counts : ν → Bool → Bool} {written : κ → ι}
    (hwritten : Function.Injective written) {t : Dict ι ν} {history : List (Action κ ν)}
    (h : ∀ key, t.lookup (written key) = latest counts key history) (a : Action κ ν) (key : κ) :
    (a.apply counts written t).lookup (written key) = latest counts key (a :: history) := by
  cases a with
  | put k value accepted =>
    rw [Action.apply, latest]
    by_cases hcounts : counts value accepted = true
    · rw [if_pos hcounts]
      by_cases hk : k = key
      · subst hk
        rw [AList.lookup_insert, if_pos ⟨rfl, hcounts⟩]
      · rw [AList.lookup_insert_ne fun heq => hk (hwritten heq.symm), if_neg fun hc => hk hc.1]
        exact h key
    · rw [if_neg hcounts, if_neg fun hc => hcounts hc.2]
      exact h key
  | get k => exact h key
  | drop k =>
    rw [Action.apply, latest]
    by_cases hk : k = key
    · subst hk
      rw [AList.lookup_erase, if_pos rfl]
    · rw [AList.lookup_erase_ne fun heq => hk (hwritten heq.symm), if_neg hk]
      exact h key

end Infra
