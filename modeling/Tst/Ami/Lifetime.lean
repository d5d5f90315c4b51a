import Tst.Ami.Locks

/-!
# The response of a call that has returned

`ami_sync` returns its `AMI_RESPONSE` to the caller, who owns it from then on. `pResp` may still
point at it, and so may the copy of `pResp` that `ami_event` works with.

## Main definitions

- `EventPc.target` — the response that `ami_event` has picked up and may still use
- `Released` — a call returns only when nothing points at its response any more
- `State.UsesReturned` — `ami_event` has used a response after its call had returned

## Main results

- `response_belongs_to_caller` — a returned response is not used again
-/

namespace Tst.Ami

open Execution

/-- The response that `ami_event` has picked up. -/
def EventPc.target {ι : Type} : EventPc ι → Option ι
  | .mode _ p | .less _ p _ | .greater _ p _ | .fill _ p _ | .result _ p _ => some p
  | _ => none

variable {ι : Type} {s s' : State ι} {i : ι}

/-- A call returns only when neither `pResp` nor `ami_event` points at its response. -/
def Released [DecidableEq ι] (s : State ι) : Action ι → Prop
  | .call i => (s.call i).pc = .leaving → s.pResp ≠ some i ∧ s.event.target ≠ some i
  | _ => True

instance [DecidableEq ι] (s : State ι) : (a : Action ι) → Decidable (Released s a)
  | .call i => inferInstanceAs (Decidable ((s.call i).pc = .leaving →
      s.pResp ≠ some i ∧ s.event.target ≠ some i))
  | .timeout _ | .message _ | .event _ | .disconnect | .delete => isTrue trivial

/-- `ami_event` has used the response of the call after the call had returned. -/
def State.UsesReturned (s : State ι) (i : ι) : Prop :=
  [Mark.returned i, Mark.access i].Sublist s.log

/-- What points at a response, and what has been done with it. -/
structure Owned (s : State ι) : Prop where
  locked : Locked s
  pending : ∀ i, s.pResp = some i → (s.call i).pc ≠ .returned
  target : ∀ i, s.event.target = some i → (s.call i).pc ≠ .returned
  returned : ∀ i, .returned i ∈ s.log → (s.call i).pc = .returned
  ordered : ∀ i, ¬ s.UsesReturned i

theorem Owned.init (kind : ι → Kind) (n : UInt32) : Owned (.init kind n) where
  locked := .init kind n
  pending i h := by simp at h
  target i h := by simp [EventPc.target] at h
  returned i h := by simp at h
  ordered i h := by simp [State.UsesReturned] at h

-- ════════════════════════════════════════════════════════════════════════
-- Calls
-- ════════════════════════════════════════════════════════════════════════

/-- What a step of the call `i` adds to the history: its return, or nothing that matters here. -/
theorem CallStep.history [DecidableEq ι] (h : CallStep s i s') :
    ((s.call i).pc = .leaving ∧ (s'.call i).pc = .returned ∧ s'.pResp = s.pResp ∧
        s'.log = s.log ++ [.returned i]) ∨
      ((s'.call i).pc ≠ .returned ∧ (s.call i).pc ≠ .returned ∧
        (s'.pResp = s.pResp ∨ s'.pResp = some i) ∧
        ∃ l, s'.log = s.log ++ l ∧ ∀ j, .returned j ∉ l ∧ .access j ∉ l) := by
  cases h with
  | leave hpc => exact .inl ⟨hpc, by simp, rfl, rfl⟩
  | null hpc hsocket =>
    refine .inr ⟨by simp, fun h => ?_, .inl rfl, _, rfl, by simp⟩
    simp [h, CallPc.readsSocket] at hpc
  | dangling hpc hdeleted =>
    refine .inr ⟨by simp, fun h => ?_, .inl rfl, _, rfl, by simp⟩
    simp [h, CallPc.usesManage] at hpc
  | «local» c hlocal =>
    have hpc : c.pc ≠ .returned ∧ (s.call i).pc ≠ .returned := by cases hlocal <;> simp [*]
    exact .inr ⟨by simpa using hpc.1, hpc.2, .inl rfl, [], by simp, by simp⟩
  | publish hpc => exact .inr ⟨by simp, by simp [hpc], .inr rfl, [], by simp, by simp⟩
  | writeSync hpc | writeAsync hpc =>
    exact .inr ⟨by simp, by simp [hpc], .inl rfl, _, rfl, by simp⟩
  | lockSync hpc | lockAsync hpc | incStore _ hpc | lockResp hpc | printSync hpc | printAsync hpc
  | wait hpc | relock _ hpc | decStore _ hpc | unlockResp hpc | unlockAmi hpc =>
    exact .inr ⟨by simp, by simp [hpc], .inl rfl, [], by simp, by simp⟩

theorem Owned.callStep [DecidableEq ι] (h : Owned s) (hok : Released s (.call i))
    (hstep : CallStep s i s') : Owned s' := by
  have hframe := hstep.frame
  have hlocked := callStep_locked h.locked hstep
  rcases hstep.history with ⟨hpc, hpc', hpResp, hlog⟩ | ⟨hpc', hpc, hpResp, l, hlog, hl⟩
  · obtain ⟨hpending, htarget⟩ := hok hpc
    refine ⟨hlocked, fun j hj => ?_, fun j hj => ?_, fun j hj => ?_, fun j hj => ?_⟩
    · rw [hpResp] at hj
      have hji : j ≠ i := fun hji => hpending (hji ▸ hj)
      rw [hframe.other j hji]
      exact h.pending j hj
    · rw [hframe.event] at hj
      have hji : j ≠ i := fun hji => htarget (hji ▸ hj)
      rw [hframe.other j hji]
      exact h.target j hj
    · by_cases hji : j = i
      · rwa [hji]
      · rw [hlog] at hj
        have hmem : .returned j ∈ s.log := by simpa [hji] using hj
        rw [hframe.other j hji]
        exact h.returned j hmem
    · rw [State.UsesReturned, hlog, pair_sublist_append] at hj
      rcases hj with hj | ⟨-, hj⟩ | hj
      · exact h.ordered j hj
      · simp at hj
      · simpa using hj.length_le
  · refine ⟨hlocked, fun j hj => ?_, fun j hj => ?_, fun j hj => ?_, fun j hj => ?_⟩
    · by_cases hji : j = i
      · rwa [hji]
      · rcases hpResp with hpResp | hpResp
        · rw [hframe.other j hji]
          exact h.pending j (hpResp ▸ hj)
        · rw [hpResp] at hj
          exact absurd (Option.some.inj hj).symm hji
    · rw [hframe.event] at hj
      by_cases hji : j = i
      · rwa [hji]
      · rw [hframe.other j hji]
        exact h.target j hj
    · rw [hlog] at hj
      have hmem : .returned j ∈ s.log := by simpa [(hl j).1] using hj
      have hji : j ≠ i := fun hji => hpc (hji ▸ h.returned j hmem)
      rw [hframe.other j hji]
      exact h.returned j hmem
    · rw [State.UsesReturned, hlog, pair_sublist_append] at hj
      rcases hj with hj | ⟨-, hj⟩ | hj
      · exact h.ordered j hj
      · exact (hl j).2 hj
      · exact (hl j).2 (hj.subset (by simp))

-- ════════════════════════════════════════════════════════════════════════
-- `ami_event`
-- ════════════════════════════════════════════════════════════════════════

/-- `ami_event` gets at a response through `pResp`, and uses only what it has picked up. -/
structure EventHistory (s s' : State ι) : Prop where
  pResp : s'.pResp = s.pResp ∨ s'.pResp = none
  target : ∀ i, s'.event.target = some i → s.pResp = some i ∨ s.event.target = some i
  log : ∃ l, s'.log = s.log ++ l ∧ ∀ i, .returned i ∉ l ∧
    (.access i ∈ l → s.pResp = some i ∨ s.event.target = some i)

theorem EventMove.target {e e' : EventPc ι} (h : EventMove s e e') (hi : e'.target = some i) :
    s.pResp = some i ∨ e.target = some i := by
  cases h <;> simp_all [EventPc.target]

theorem EventStep.history [DecidableEq ι] (h : EventStep s s') : EventHistory s s' := by
  cases h with
  | move e hmove => exact ⟨.inl rfl, fun i hi => hmove.target hi, [], by simp, by simp⟩
  | mode m p e hpc he =>
    refine ⟨.inl rfl, fun i hi => ?_, _, rfl, fun i => ⟨by simp, fun hi => .inr ?_⟩⟩
    · rcases he with rfl | rfl <;> simp [EventPc.target] at hi
    · simpa [hpc, EventPc.target, eq_comm] using hi
  | take m p resp id hpc hp hresp hid =>
    refine ⟨.inl rfl, fun i hi => ?_, _, rfl, fun i => ⟨by simp, fun hi => .inl ?_⟩⟩
    · exact .inl (hp.trans (by simpa [EventPc.target] using hi))
    · simpa [hp, eq_comm] using hi
  | fill m p past hpc =>
    refine ⟨.inl rfl, fun i hi => ?_, _, rfl, fun i => ⟨by simp, fun hi => .inr ?_⟩⟩
    · exact .inr (by simpa [hpc, EventPc.target] using hi)
    · simpa [hpc, EventPc.target, eq_comm] using hi
  | refuse m p hpc | accept m p resp hpc =>
    refine ⟨.inl rfl, fun i hi => ?_, _, rfl, fun i => ⟨by simp, fun hi => .inr ?_⟩⟩
    · simp [EventPc.target] at hi
    · simpa [hpc, EventPc.target, eq_comm] using hi
  | misuse m hpc | clear m p hpc =>
    exact ⟨.inr rfl, by simp [EventPc.target], [], by simp, by simp⟩
  | incStore m n hpc | lock m hpc | wake m j hpc | noWaiter m hpc | decStore m done n hpc =>
    exact ⟨.inl rfl, by simp [EventPc.target], [], by simp, by simp⟩
  | unlock m done e hpc he =>
    refine ⟨.inl rfl, fun i hi => ?_, [], by simp, by simp⟩
    rcases he with rfl | rfl <;> simp [EventPc.target] at hi

theorem Owned.eventStep [DecidableEq ι] (h : Owned s) (hstep : EventStep s s') : Owned s' := by
  have hlocked := eventStep_locked h.locked hstep
  have hframe := hstep.frame
  obtain ⟨hpResp, htarget, l, hlog, hl⟩ := hstep.history
  have hused {j : ι} (hj : s.pResp = some j ∨ s.event.target = some j) :
      (s.call j).pc ≠ .returned := hj.elim (h.pending j) (h.target j)
  -- only a call that waits is moved
  have hpc (j : ι) : (s'.call j).pc = .returned ↔ (s.call j).pc = .returned := by
    rcases hframe.pc j with hj | ⟨hj, hwoken⟩
    · rw [hj]
    · simp [hwoken, h.locked.waiters j hj]
  refine ⟨hlocked, fun j hj => ?_, fun j hj => ?_, fun j hj => ?_, fun j hj => ?_⟩
  · rw [Ne, hpc]
    rcases hpResp with hpResp | hpResp
    · exact h.pending j (hpResp ▸ hj)
    · simp [hpResp] at hj
  · rw [Ne, hpc]
    exact hused (htarget j hj)
  · rw [hlog] at hj
    have hmem : .returned j ∈ s.log := by simpa [(hl j).1] using hj
    exact (hpc j).mpr (h.returned j hmem)
  · rw [State.UsesReturned, hlog, pair_sublist_append] at hj
    rcases hj with hj | ⟨hmem, hj⟩ | hj
    · exact h.ordered j hj
    · exact hused ((hl j).2 hj) (h.returned j hmem)
    · exact (hl j).1 (hj.subset (by simp))

theorem step_owned [DecidableEq ι] {a : Action ι} (h : Owned s) (hok : Released s a)
    (hstep : step s a = some s') : Owned s' := by
  have hlocked := step_locked h.locked hstep
  cases step_cases hstep with
  | call i s' hcall => exact h.callStep hok hcall
  | event k s' hevent => exact h.eventStep hevent
  | timeout i hpc =>
    have hpc' (j : ι) : (Function.update s.call i { s.call i with pc := .relock true } j).pc =
        .returned ↔ (s.call j).pc = .returned := by
      by_cases hj : j = i <;> simp [hj, hpc]
    exact ⟨hlocked, fun j hj => mt (hpc' j).mp (h.pending j hj),
      fun j hj => mt (hpc' j).mp (h.target j hj), fun j hj => (hpc' j).mpr (h.returned j hj),
      h.ordered⟩
  | message m hpc => exact ⟨hlocked, h.pending, by simp [EventPc.target], h.returned, h.ordered⟩
  | disconnect hpc => exact ⟨hlocked, h.pending, by simp [EventPc.target], h.returned, h.ordered⟩
  | delete hpc => exact ⟨hlocked, h.pending, by simp [EventPc.target], h.returned, h.ordered⟩

-- ════════════════════════════════════════════════════════════════════════
-- Runs
-- ════════════════════════════════════════════════════════════════════════

/-- `ami_event` never uses a response after its call has returned, in every run in which a call
returns only when neither `pResp` nor `ami_event` points at its response. -/
theorem response_belongs_to_caller [DecidableEq ι] (kind : ι → Kind) (n : UInt32)
    (as : List (Action ι)) (s : State ι) (h : Exec step Released (State.init kind n) as s) (i : ι) :
    ¬ s.UsesReturned i := by
  have hinv : Owned s :=
    h.invariant (fun _ _ _ hok hs hstep => step_owned hs hok hstep) (.init kind n)
  exact hinv.ordered i

theorem response_belongs_to_caller_answered :
    ∃ s, Exec step Released (State.init (fun _ : Fin 1 => { sync := true }) 0)
        (sendRun 0 ++ answerRun (answer 49) ++ resumeRun 0) s ∧
      s.log = [.wrote 0, .access 0, .access 0, .took 0 0, .access 0, .access 0, .returned 0] ∧
      ¬ s.UsesReturned 0 := by
  have hrun : (check step Released (State.init (fun _ : Fin 1 => { sync := true }) 0)
      (sendRun 0 ++ answerRun (answer 49) ++ resumeRun 0)).any (fun s => decide (s.log =
        [.wrote 0, .access 0, .access 0, .took 0 0, .access 0, .access 0, .returned 0])) = true := by
    decide +kernel
  obtain ⟨s, hexec, hlog⟩ := Exec.exists_of_check hrun
  exact ⟨s, hexec, of_decide_eq_true hlog, response_belongs_to_caller _ 0 _ s hexec 0⟩

/-- `ami_event` has read `pResp` when the call runs into its timeout and returns. Then it reads
the mode of the response. -/
theorem late_response_uses_returned :
    ∃ s, run step (State.init (fun _ : Fin 1 => { sync := true }) 0)
        (sendRun 0 ++ [.message (answer 49), .event 0, .event 0, .event 0, .timeout 0] ++
          resumeRun 0 ++ [.event 0]) = some s ∧ s.UsesReturned 0 := by
  have hrun : (run step (State.init (fun _ : Fin 1 => { sync := true }) 0)
      (sendRun 0 ++ [.message (answer 49), .event 0, .event 0, .event 0, .timeout 0] ++
        resumeRun 0 ++ [.event 0])).any
      (fun s => decide (s.log = [.wrote 0, .returned 0, .access 0])) = true := by decide +kernel
  obtain ⟨s, hs, hlog⟩ := (Option.any_eq_true ..).mp hrun
  refine ⟨s, hs, ?_⟩
  rw [State.UsesReturned, of_decide_eq_true hlog]
  exact List.sublist_cons_self _ _

end Tst.Ami
