import Mathlib.Data.List.Basic
import Mathlib.Tactic.Ring

/-!
# Executions of a partial step function

A machine is given by `step : σ → α → Option σ`: an action is either impossible in
a state or leads to exactly one next state, so that all nondeterminism sits in the
choice of the actions.

## Main definitions

- `run` — perform a list of actions
- `Exec` — an execution in which every action is allowed by a guard on the state
  before it
- `log` — what an observer of the single steps sees of an execution

## Main results

- `Exec.invariant` — what holds at the start and is preserved by one step holds at
  the end
- `Exec.trace` — the same for what relates a state to the actions before it
- `Exec.window` — the same, while all states satisfy a further condition
- `Exec.refines` — a step-by-step simulation makes an abstract acceptor take the
  whole log
- `Exec.exists_of_rank` — steps that lower a rank come to an end
- `pair_sublist_append` — the order of two entries of a history that grows
-/

namespace Execution

variable {σ α β μ : Type*}

/-- Perform the actions one after the other. -/
def run (step : σ → α → Option σ) : σ → List α → Option σ
  | s, [] => some s
  | s, a :: as => (step s a).bind fun s' => run step s' as

/-- The same, refusing an action that the guard does not allow. -/
def check (step : σ → α → Option σ) (ok : σ → α → Prop) [∀ s a, Decidable (ok s a)] :
    σ → List α → Option σ
  | s, [] => some s
  | s, a :: as => if ok s a then (step s a).bind fun s' => check step ok s' as else none

/-- What an observer of the single steps sees of an execution. -/
def log (step : σ → α → Option σ) (obs : σ → α → List β) : σ → List α → List β
  | _, [] => []
  | s, a :: as =>
    match step s a with
    | none => []
    | some s' => obs s a ++ log step obs s' as

/-- `Exec step ok s as s'`: the actions `as` lead from `s` to `s'`, and each of them
satisfies `ok` in the state in which it is taken. -/
inductive Exec (step : σ → α → Option σ) (ok : σ → α → Prop) : σ → List α → σ → Prop
  | nil (s : σ) : Exec step ok s [] s
  | cons {s s' s'' : σ} {a : α} {as : List α} (hok : ok s a) (hstep : step s a = some s')
      (rest : Exec step ok s' as s'') : Exec step ok s (a :: as) s''

section Run

variable {step : σ → α → Option σ} {ok : σ → α → Prop} {s s' s'' : σ} {as bs : List α}

theorem run_append (step : σ → α → Option σ) (s : σ) (as bs : List α) :
    run step s (as ++ bs) = (run step s as).bind fun s' => run step s' bs := by
  induction as generalizing s with
  | nil => rfl
  | cons a as ih =>
    simp only [List.cons_append, run, Option.bind_assoc]
    congr 1
    funext s'
    exact ih s'

/-- A run is an execution, if all its actions are allowed in every state. -/
theorem Exec.of_run_of_forall (h : run step s as = some s') (hok : ∀ a ∈ as, ∀ s, ok s a) :
    Exec step ok s as s' := by
  induction as generalizing s with
  | nil =>
    simp only [run, Option.some.injEq] at h
    exact h ▸ .nil s
  | cons a as ih =>
    simp only [run, Option.bind_eq_some_iff] at h
    obtain ⟨s₁, hstep, hrest⟩ := h
    exact .cons (hok a (List.mem_cons_self ..) s) hstep
      (ih hrest fun b hb => hok b (List.mem_cons_of_mem _ hb))

theorem Exec.of_run (h : run step s as = some s') : Exec step (fun _ _ => True) s as s' :=
  .of_run_of_forall h fun _ _ _ => trivial

theorem Exec.of_check [∀ s a, Decidable (ok s a)] (h : check step ok s as = some s') :
    Exec step ok s as s' := by
  induction as generalizing s with
  | nil =>
    simp only [check, Option.some.injEq] at h
    exact h ▸ .nil s
  | cons a as ih =>
    simp only [check] at h
    split at h
    · next hok =>
      simp only [Option.bind_eq_some_iff] at h
      obtain ⟨s₁, hstep, hrest⟩ := h
      exact .cons hok hstep (ih hrest)
    · simp at h

/-- An execution is found by running it; `p` is what is asked of its last state. -/
theorem Exec.exists_of_check [∀ s a, Decidable (ok s a)] {p : σ → Bool}
    (h : (check step ok s as).any p = true) : ∃ s', Exec step ok s as s' ∧ p s' = true := by
  obtain ⟨s', hs', hp⟩ := (Option.any_eq_true ..).mp h
  exact ⟨s', .of_check hs', hp⟩

/-- Invariant rule: what holds at the start and is preserved by every allowed step
holds at the end. -/
theorem Exec.invariant {Inv : σ → Prop} (h : Exec step ok s as s')
    (hstep : ∀ s a s', ok s a → Inv s → step s a = some s' → Inv s') (hinit : Inv s) :
    Inv s' := by
  induction h with
  | nil s => exact hinit
  | cons hok hs _ ih => exact ih (hstep _ _ _ hok hinit hs)

/-- Trace rule: the same for what relates a state to the actions that have led to it. -/
theorem Exec.trace {Inv : List α → σ → Prop} {done : List α} (h : Exec step ok s as s')
    (hstep : ∀ done s a s', ok s a → Inv done s → step s a = some s' → Inv (done ++ [a]) s')
    (hinit : Inv done s) : Inv (done ++ as) s' := by
  induction h generalizing done with
  | nil s =>
    rw [List.append_nil]
    exact hinit
  | cons hok hs _ ih =>
    rw [List.append_cons]
    exact ih (hstep _ _ _ _ hok hinit hs)

/-- The window rule: what holds at the start of an execution all of whose states satisfy
`W`, and is preserved by every allowed step between two such states, holds at the end. -/
theorem Exec.window {W Inv : σ → Prop} (h : Exec step (fun s a => ok s a ∧ W s) s as s')
    (hlast : W s')
    (hstep : ∀ s a s', ok s a → W s → W s' → Inv s → step s a = some s' → Inv s')
    (hinit : Inv s) : Inv s' := by
  induction h with
  | nil s => exact hinit
  | @cons s s₁ s' a as hok hs rest ih =>
    have hnext : W s₁ := by
      cases rest with
      | nil => exact hlast
      | cons hok' _ _ => exact hok'.2
    exact ih hlast (hstep _ _ _ hok.1 hok.2 hnext hinit hs)

/-- Simulation rule: if every allowed step of the machine is matched by the abstract
acceptor taking what is observed of it, the acceptor takes the log of an execution. -/
theorem Exec.refines {obs : σ → α → List β} {accept : μ → β → Option μ} {R : σ → μ → Prop}
    {m : μ} (h : Exec step ok s as s')
    (hstep : ∀ s a s' m, ok s a → R s m → step s a = some s' →
      ∃ m', run accept m (obs s a) = some m' ∧ R s' m')
    (hinit : R s m) :
    ∃ m', run accept m (log step obs s as) = some m' ∧ R s' m' := by
  induction h generalizing m with
  | nil s => exact ⟨m, rfl, hinit⟩
  | cons hok hs _ ih =>
    obtain ⟨m₁, hrun, hR⟩ := hstep _ _ _ _ hok hinit hs
    obtain ⟨m₂, hrun₂, hR₂⟩ := ih hR
    refine ⟨m₂, ?_, hR₂⟩
    rw [log, hs]
    simp only [run_append, hrun, Option.bind_some, hrun₂]

/-- Measure rule: where every state with the invariant allows a step of the kind `p` that keeps
it and lowers the rank, some execution of such steps brings the rank to zero. -/
theorem Exec.exists_of_rank (step : σ → α → Option σ) (ok : σ → α → Prop) (Inv : σ → Prop)
    (p : α → Prop) (rank : σ → Nat)
    (hstep : ∀ s, Inv s → rank s ≠ 0 →
      ∃ a s', p a ∧ ok s a ∧ step s a = some s' ∧ Inv s' ∧ rank s' < rank s) (hinit : Inv s) :
    ∃ as s', (∀ a ∈ as, p a) ∧ Exec step ok s as s' ∧ Inv s' ∧ rank s' = 0 := by
  induction hn : rank s using Nat.strong_induction_on generalizing s with
  | _ n ih =>
    by_cases hzero : rank s = 0
    · exact ⟨[], s, by simp, .nil s, hinit, hzero⟩
    · obtain ⟨a, s₁, hp, hok, hs, hinv, hlt⟩ := hstep s hinit hzero
      obtain ⟨as, s₂, hps, hexec, hinv₂, hzero₂⟩ := ih (rank s₁) (hn ▸ hlt) hinv rfl
      refine ⟨a :: as, s₂, fun b hb => ?_, .cons hok hs hexec, hinv₂, hzero₂⟩
      rcases List.mem_cons.mp hb with rfl | hb
      · exact hp
      · exact hps b hb

end Run

section Order

variable {a b : α} {l₁ l₂ : List α}

/-- In a history that grows at its end, `a` comes before `b`: in the old part, across the
border, or in what has been added. -/
theorem pair_sublist_append : [a, b].Sublist (l₁ ++ l₂) ↔
    [a, b].Sublist l₁ ∨ (a ∈ l₁ ∧ b ∈ l₂) ∨ [a, b].Sublist l₂ := by
  rw [List.sublist_append_iff]
  constructor
  · rintro ⟨r₁, r₂, heq, h₁, h₂⟩
    cases r₁ with
    | nil =>
      obtain rfl : [a, b] = r₂ := by simpa using heq
      exact .inr (.inr h₂)
    | cons x r₁ =>
      cases r₁ with
      | nil =>
        obtain ⟨rfl, rfl⟩ : a = x ∧ [b] = r₂ := by simpa using heq
        exact .inr (.inl ⟨List.singleton_sublist.mp h₁, List.singleton_sublist.mp h₂⟩)
      | cons y r₁ =>
        obtain ⟨rfl, rfl, rfl, rfl⟩ : a = x ∧ b = y ∧ r₁ = [] ∧ r₂ = [] := by simpa using heq
        exact .inl h₁
  · rintro (h | ⟨ha, hb⟩ | h)
    · exact ⟨[a, b], [], rfl, h, List.nil_sublist _⟩
    · exact ⟨[a], [b], rfl, List.singleton_sublist.mpr ha, List.singleton_sublist.mpr hb⟩
    · exact ⟨[], [a, b], rfl, List.nil_sublist _, h⟩

end Order

end Execution
