import Tst.Lib.Update

/-!
# Handles that are given again

Resources are opened under a number, which is given again once the resource has been closed.
A registry lists the resources by their numbers. Several parties close them: each takes the
entry out of the registry first, and closes the number later.

## Main definitions

- `Table` — who has a number, the registry, what the parties have taken out of it, and what has
  been closed so far
- `Table.Step` — the steps of parties that close what they have taken out
- `Table.Accounted` — every entry, and everything taken out, is open under its number

## Main results

- `Table.Accounted.step` — the steps keep the table accounted for: what is closed is what had been
  taken out, and nothing is closed twice
-/

namespace Handle

open Update

variable {K F E : Type*}

/-- `closed` is history: for every close what the party had taken out, and who had the number. -/
structure Table (K F E : Type*) where
  owner : F → Option E
  entry : F → Option E
  taken : K → Option (F × E)
  closed : List (Option E × Option E)

/-- A new resource is opened under a free number, one that nobody is closing is registered, an
entry is taken out, and what has been taken out is closed. A party may also leave it open. -/
inductive Table.Step [DecidableEq K] [DecidableEq F] (t : Table K F E) : Table K F E → Prop
  | new {f : F} {e : E} (hfree : t.owner f = none) (hnew : ∀ f, t.owner f ≠ some e)
      (hnever : ∀ x ∈ t.closed, x.2 ≠ some e) :
    Step t { t with owner := Function.update t.owner f (some e) }
  | register {f : F} {e : E} (howner : t.owner f = some e)
      (hnobody : ∀ k e, t.taken k ≠ some (f, e)) :
    Step t { t with entry := Function.update t.entry f (some e) }
  | take {k : K} {f : F} {e : E} (hentry : t.entry f = some e) :
    Step t { t with
      entry := Function.update t.entry f none
      taken := Function.update t.taken k (some (f, e)) }
  | close {k : K} {f : F} {e : E} (htaken : t.taken k = some (f, e)) :
    Step t { t with
      owner := Function.update t.owner f none
      taken := Function.update t.taken k none
      closed := t.closed ++ [(some e, t.owner f)] }
  | leave (k : K) : Step t { t with taken := Function.update t.taken k none }

/-- Every entry, and everything that has been taken out of the registry, is open under its
number, and whoever has taken it out is the only one to close it. -/
structure Table.Accounted (t : Table K F E) : Prop where
  entry : ∀ f e, t.entry f = some e → t.owner f = some e
  taken : ∀ k f e, t.taken k = some (f, e) → t.owner f = some e ∧ t.entry f = none
  alone : ∀ k k' f e e', t.taken k = some (f, e) → t.taken k' = some (f, e') → k = k'
  single : ∀ f f' e, t.owner f = some e → t.owner f' = some e → f = f'
  closed : ∀ x ∈ t.closed, ∃ e, x = (some e, some e) ∧ ∀ f, t.owner f ≠ some e
  once : (t.closed.map Prod.snd).Nodup

namespace Table.Accounted

variable [DecidableEq F] {t t' : Table K F E} {k : K} {f : F} {e : E}

theorem new (h : t.Accounted) (hfree : t.owner f = none) (hnew : ∀ f, t.owner f ≠ some e)
    (hnever : ∀ x ∈ t.closed, x.2 ≠ some e) :
    Accounted { t with owner := Function.update t.owner f (some e) } := by
  have hkeep : ∀ f' e', t.owner f' = some e' →
      Function.update t.owner f (some e) f' = some e' := by
    intro f' e' howner
    refine update_some_eq_some.mpr (.inr ⟨?_, howner⟩)
    rintro rfl
    rw [hfree] at howner
    cases howner
  refine { h with entry := ?_, taken := ?_, single := ?_, closed := ?_ }
  · intro f' e' hentry
    exact hkeep f' e' (h.entry f' e' hentry)
  · intro k' f' e' htaken
    obtain ⟨howner, hnone⟩ := h.taken k' f' e' htaken
    exact ⟨hkeep f' e' howner, hnone⟩
  · intro f₁ f₂ e' h₁ h₂
    obtain ⟨rfl, rfl⟩ | ⟨-, hold₁⟩ := update_some_eq_some.mp h₁
    · obtain ⟨rfl, -⟩ | ⟨-, hold₂⟩ := update_some_eq_some.mp h₂
      · rfl
      · exact absurd hold₂ (hnew f₂)
    · obtain ⟨rfl, rfl⟩ | ⟨-, hold₂⟩ := update_some_eq_some.mp h₂
      · exact absurd hold₁ (hnew f₁)
      · exact h.single f₁ f₂ e' hold₁ hold₂
  · intro x hx
    obtain ⟨e', rfl, hgone⟩ := h.closed x hx
    refine ⟨e', rfl, fun f' howner => ?_⟩
    obtain ⟨-, rfl⟩ | ⟨-, hold⟩ := update_some_eq_some.mp howner
    · exact hnever _ hx rfl
    · exact hgone f' hold

theorem register (h : t.Accounted) (howner : t.owner f = some e)
    (hnobody : ∀ k e, t.taken k ≠ some (f, e)) :
    Accounted { t with entry := Function.update t.entry f (some e) } := by
  refine { h with entry := ?_, taken := ?_ }
  · intro f' e' hentry
    obtain ⟨rfl, rfl⟩ | ⟨-, hold⟩ := update_some_eq_some.mp hentry
    · exact howner
    · exact h.entry f' e' hold
  · intro k' f' e' htaken
    obtain ⟨howner', hnone⟩ := h.taken k' f' e' htaken
    have hne : f' ≠ f := fun hf => hnobody k' e' (hf ▸ htaken)
    exact ⟨howner', by simpa [hne] using hnone⟩

variable [DecidableEq K]

theorem take (h : t.Accounted) (hentry : t.entry f = some e) :
    Accounted { t with
      entry := Function.update t.entry f none
      taken := Function.update t.taken k (some (f, e)) } := by
  -- nobody else has taken the entry
  have hother : ∀ k' e', k' ≠ k → Function.update t.taken k (some (f, e)) k' ≠ some (f, e') := by
    intro k' e' hne htaken
    rw [Function.update_of_ne hne] at htaken
    rw [(h.taken k' f e' htaken).2] at hentry
    cases hentry
  refine { h with entry := ?_, taken := ?_, alone := ?_ }
  · intro f' e' hentry'
    exact h.entry f' e' (update_none_eq_some.mp hentry').2
  · intro k' f' e' htaken
    obtain ⟨-, heq⟩ | ⟨-, hold⟩ := update_some_eq_some.mp htaken
    · obtain ⟨rfl, rfl⟩ := Prod.mk.inj heq
      exact ⟨h.entry f e hentry, Function.update_self ..⟩
    · obtain ⟨howner, hnone⟩ := h.taken k' f' e' hold
      refine ⟨howner, ?_⟩
      by_cases hne : f' = f
      · rw [hne]
        exact Function.update_self ..
      · simpa [hne] using hnone
  · intro k₁ k₂ f' e₁ e₂ h₁ h₂
    obtain ⟨rfl, heq⟩ | ⟨hk₁, hold₁⟩ := update_some_eq_some.mp h₁
    · obtain ⟨rfl, rfl⟩ := Prod.mk.inj heq
      by_contra hne
      exact hother k₂ e₂ (Ne.symm hne) h₂
    · obtain ⟨rfl, heq⟩ | ⟨-, hold₂⟩ := update_some_eq_some.mp h₂
      · obtain ⟨rfl, rfl⟩ := Prod.mk.inj heq
        exact absurd h₁ (hother k₁ e₁ hk₁)
      · exact h.alone k₁ k₂ f' e₁ e₂ hold₁ hold₂

theorem close (h : t.Accounted) (htaken : t.taken k = some (f, e)) :
    Accounted { t with
      owner := Function.update t.owner f none
      taken := Function.update t.taken k none
      closed := t.closed ++ [(some e, t.owner f)] } := by
  obtain ⟨howner, hentry⟩ := h.taken k f e htaken
  refine ⟨?_, ?_, ?_, ?_, ?_, ?_⟩
  · intro f' e' hentry'
    refine update_none_eq_some.mpr ⟨?_, h.entry f' e' hentry'⟩
    rintro rfl
    rw [hentry] at hentry'
    cases hentry'
  · intro k' f' e' htaken'
    obtain ⟨hk, hold⟩ := update_none_eq_some.mp htaken'
    have hne : f' ≠ f := by
      rintro rfl
      exact hk (h.alone k' k f' e' e hold htaken)
    obtain ⟨howner', hentry'⟩ := h.taken k' f' e' hold
    exact ⟨update_none_eq_some.mpr ⟨hne, howner'⟩, hentry'⟩
  · intro k₁ k₂ f' e₁ e₂ h₁ h₂
    exact h.alone k₁ k₂ f' e₁ e₂ (update_none_eq_some.mp h₁).2 (update_none_eq_some.mp h₂).2
  · intro f₁ f₂ e' h₁ h₂
    exact h.single f₁ f₂ e' (update_none_eq_some.mp h₁).2 (update_none_eq_some.mp h₂).2
  · intro x hx
    obtain hx | hx := List.mem_append.mp hx
    · obtain ⟨e', rfl, hgone⟩ := h.closed x hx
      exact ⟨e', rfl, fun f' howner' => hgone f' (update_none_eq_some.mp howner').2⟩
    · obtain rfl := List.mem_singleton.mp hx
      refine ⟨e, by rw [howner], fun f' howner' => ?_⟩
      obtain ⟨hne, hold⟩ := update_none_eq_some.mp howner'
      exact hne (h.single f' f e hold howner)
  · rw [List.map_append, List.nodup_append]
    refine ⟨h.once, by simp, ?_⟩
    intro a ha b hb
    obtain ⟨x, hx, rfl⟩ := List.mem_map.mp ha
    obtain rfl : b = t.owner f := by simpa using hb
    obtain ⟨e', rfl, hgone⟩ := h.closed x hx
    intro heq
    exact hgone f heq.symm

omit [DecidableEq F] in
theorem leave (h : t.Accounted) (k : K) :
    Accounted { t with taken := Function.update t.taken k none } := by
  refine { h with taken := ?_, alone := ?_ }
  · intro k' f' e' htaken
    exact h.taken k' f' e' (update_none_eq_some.mp htaken).2
  · intro k₁ k₂ f' e₁ e₂ h₁ h₂
    exact h.alone k₁ k₂ f' e₁ e₂ (update_none_eq_some.mp h₁).2 (update_none_eq_some.mp h₂).2

theorem step (h : t.Accounted) (hstep : t.Step t') : t'.Accounted := by
  cases hstep with
  | new hfree hnew hnever => exact h.new hfree hnew hnever
  | register howner hnobody => exact h.register howner hnobody
  | take hentry => exact h.take hentry
  | close htaken => exact h.close htaken
  | leave k => exact h.leave k

end Table.Accounted

end Handle
