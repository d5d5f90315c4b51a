import Mathlib.Tactic.Ring

/-!
# Items at exclusive locations

A relation between items and the locations where they are found, under steps that take
one item from its location to another one.

## Main definitions

- `Exclusive` — every item is at one location at most

## Main results

- `Exclusive.move`, `Exclusive.enter` — the steps of one item
-/

namespace Location

variable {ι κ : Type*} {P Q : ι → κ → Prop} {c₀ : ι} {k₀ : κ}

/-- Every item is at one location at most. -/
def Exclusive (P : ι → κ → Prop) : Prop :=
  ∀ c k k', P c k → P c k' → k = k'

theorem Exclusive.mono (h : Exclusive P) (hQ : ∀ c k, Q c k → P c k) : Exclusive Q := by
  intro c k k' hk hk'
  exact h c k k' (hQ c k hk) (hQ c k' hk')

/-- The item `c₀` goes from `k₀` to `k₁`. -/
theorem Exclusive.move (h : Exclusive P) (h₀ : P c₀ k₀) (k₁ : κ)
    (hQ : ∀ c k, Q c k → c = c₀ ∧ k = k₁ ∨ P c k ∧ (c = c₀ → k ≠ k₀)) : Exclusive Q := by
  -- what is still at an old location is another item
  have hold : ∀ k, P c₀ k → ¬ (c₀ = c₀ → k ≠ k₀) :=
    fun k hk hne => hne rfl (h c₀ k k₀ hk h₀)
  intro c k k' hk hk'
  rcases hQ c k hk with ⟨rfl, rfl⟩ | ⟨hk, hne⟩
  · rcases hQ c k' hk' with ⟨-, rfl⟩ | ⟨hk', hne'⟩
    · rfl
    · exact absurd hne' (hold k' hk')
  · rcases hQ c k' hk' with ⟨rfl, rfl⟩ | ⟨hk', -⟩
    · exact absurd hne (hold k hk)
    · exact h c k k' hk hk'

/-- The item `c₀`, which was nowhere, appears at `k₁`. -/
theorem Exclusive.enter (h : Exclusive P) (h₀ : ∀ k, ¬ P c₀ k) (k₁ : κ)
    (hQ : ∀ c k, Q c k → c = c₀ ∧ k = k₁ ∨ P c k) : Exclusive Q := by
  intro c k k' hk hk'
  rcases hQ c k hk with ⟨rfl, rfl⟩ | hk
  · rcases hQ c k' hk' with ⟨-, rfl⟩ | hk'
    · rfl
    · exact absurd hk' (h₀ k')
  · rcases hQ c k' hk' with ⟨rfl, rfl⟩ | hk'
    · exact absurd hk (h₀ k)
    · exact h c k k' hk hk'

end Location
