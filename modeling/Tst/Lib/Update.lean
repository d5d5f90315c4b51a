import Mathlib.Data.Option.Basic
import Mathlib.Logic.Function.Basic

/-!
# Maps with one key written

## Main results

- `update_some_eq_some`, `update_none_eq_some` — the entries once one has been written or deleted
- `update_true_eq_true` — the keys that are marked once one has been marked
-/

namespace Update

variable {K E : Type*} [DecidableEq K] {k k' : K}

section Entry

variable {f : K → Option E} {x y : E}

theorem update_some_eq_some :
    Function.update f k (some y) k' = some x ↔ k' = k ∧ y = x ∨ k' ≠ k ∧ f k' = some x := by
  rw [Function.update_apply]
  split
  · next h => simp [h]
  · next h => simp [h]

theorem update_none_eq_some :
    Function.update f k none k' = some x ↔ k' ≠ k ∧ f k' = some x := by
  rw [Function.update_apply, Option.ite_none_left_eq_some]

end Entry

variable {f : K → Bool}

theorem update_true_eq_true : Function.update f k true k' = true ↔ k' = k ∨ f k' = true := by
  rw [Function.update_apply]
  split
  · next h => simp [h]
  · next h => simp [h]

end Update
