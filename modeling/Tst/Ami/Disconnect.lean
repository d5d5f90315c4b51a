import Tst.Ami.Locks

/-!
# Calls in flight when the connection is lost

`closesocket` calls `my_disconnected`, which sets `ami_socket` to NULL, and then deletes the
socket, with the send buffer and the mutexes and the condition of `AMI_MANAGE`. Nothing makes it
wait for the calls.

## Main definitions

- `CallPc.beforeWrite`, `CallPc.afterWrite` — the points of a call that has found a connection
- `Call.failing` — without a further message the call returns an error
- `Undisturbed` — the connection is closed while no call needs it
- `State.Survives` — the calls do without it

## Main results

- `disconnect_survived` — closed like that, the connection takes no call with it
-/

namespace Tst.Ami

open Execution

/-- The call has found a connection and reads `ami_socket` again. -/
def CallPc.beforeWrite : CallPc → Bool
  | .typeTest | .fmtTest | .sendPtr | .lockAmi | .incLoad | .lockResp | .print | .setMode
  | .publish | .write | .incStore _ => true
  | _ => false

/-- The call has written its action and uses `AMI_MANAGE` again. -/
def CallPc.afterWrite : CallPc → Bool
  | .wait | .waiting | .decLoad | .unlockResp | .unlockAmi | .relock _ | .timeoutTest _
  | .decStore _ => true
  | _ => false

/-- The call waits for its timeout, or has an error in its response. -/
def Call.failing (c : Call) : Bool :=
  match c.pc with
  | .wait | .waiting | .relock true | .timeoutTest true => true
  | _ => c.resp.result ≠ 0

/-- The connection is lost while every call that has found it has written its action, and no
`ami_sync` among them has a result of 0. The socket is deleted when these calls have given up
the mutexes. -/
def Undisturbed {ι : Type} (s : State ι) : Action ι → Prop
  | .disconnect => ∀ i, (s.call i).pc.beforeWrite = false ∧
      ((s.call i).kind.sync = true → (s.call i).pc.inFlight = true → (s.call i).failing = true)
  | .delete => ∀ i, (s.call i).pc.afterWrite = false
  | _ => True

instance {n : Nat} (s : State (Fin n)) : (a : Action (Fin n)) → Decidable (Undisturbed s a)
  | .disconnect => inferInstanceAs (Decidable (∀ i, (s.call i).pc.beforeWrite = false ∧
      ((s.call i).kind.sync = true → (s.call i).pc.inFlight = true → (s.call i).failing = true)))
  | .delete => inferInstanceAs (Decidable (∀ i, (s.call i).pc.afterWrite = false))
  | .call _ | .timeout _ | .message _ | .event _ => isTrue trivial

variable {ι : Type} {s s' : State ι} {i : ι}

/-- No call uses the NULL `ami_socket` or what has been deleted. An `ami_sync` that was under way
when the connection was lost returns no 0, and its own steps bring it to its return. -/
structure State.Survives [DecidableEq ι] (s : State ι) : Prop where
  unmarked : ∀ i, .null i ∉ s.log ∧ .dangling i ∉ s.log
  result : ∀ i, (s.call i).kind.sync = true → (s.call i).cut = true →
    ∀ r, (s.call i).out = some r → r.result ≠ 0
  returns : ∀ i, (s.call i).kind.sync = true → (s.call i).cut = true →
    ∃ as s' r, (∀ a ∈ as, a = .call i ∨ a = .timeout i) ∧ Exec step Undisturbed s as s' ∧
      (s'.call i).out = some r ∧ r.result ≠ 0

/-- A call that was under way when the connection was lost: nothing but its return is left, and
`ami_sync` does not return 0. -/
structure Call.CutOff (c : Call) : Prop where
  way : c.pc.afterWrite = true ∨ c.pc = .leaving ∨ c.pc = .returned ∧ c.out = some c.resp
  failing : c.kind.sync = true → c.failing = true

/-- How the calls fit to what is left of the connection. -/
structure Unbroken (s : State ι) : Prop where
  locked : Locked s
  uncrashed : ∀ i, (s.call i).pc ≠ .crashed
  unmarked : ∀ i, .null i ∉ s.log ∧ .dangling i ∉ s.log
  connected : Connected s
  socket : s.socket = false → ∀ i, (s.call i).pc.beforeWrite = false
  deleted : s.deleted = true → ∀ i, (s.call i).pc.afterWrite = false
  unreturned : ∀ i, (s.call i).pc ≠ .returned → (s.call i).out = none
  cut : ∀ i, (s.call i).cut = true → s.socket = false ∧ (s.call i).CutOff

theorem Unbroken.init (kind : ι → Kind) (n : UInt32) : Unbroken (.init kind n) where
  locked := .init kind n
  uncrashed i := by simp
  unmarked i := by simp
  connected := .init kind n
  socket h := by simp at h
  deleted h := by simp at h
  unreturned i _ := by simp
  cut i h := by simp at h

-- ════════════════════════════════════════════════════════════════════════
-- Calls
-- ════════════════════════════════════════════════════════════════════════

theorem CallPc.beforeWrite_of_readsSocket {pc : CallPc} (h : pc.readsSocket = true) :
    pc.beforeWrite = true := by
  cases pc <;> simp_all [readsSocket, beforeWrite]

theorem CallPc.needs_of_usesManage {pc : CallPc} (h : pc.usesManage = true) :
    pc.beforeWrite = true ∨ pc.afterWrite = true := by
  cases pc <;> simp_all [usesManage, beforeWrite, afterWrite]

theorem CallPc.afterWrite_of_beforeWrite {pc : CallPc} (h : pc.beforeWrite = true) :
    pc.afterWrite = false := by
  cases pc <;> simp_all [beforeWrite, afterWrite]

/-- The four phases of a call. -/
inductive CallPhase (s : State ι) (c c' : Call) : Prop
  | starts (hpc : c.pc = .start)
      (hnext : c'.pc = .typeTest ∧ s.socket = true ∨ c'.pc = .leaving) (hout : c'.out = c.out)
  | sends (hpc : c.pc.beforeWrite = true) (hnext : c'.pc ≠ .crashed ∧ c'.pc ≠ .returned)
      (hout : c'.out = c.out)
  | waits (hpc : c.pc.afterWrite = true) (hnext : c'.pc.afterWrite = true ∨ c'.pc = .leaving)
      (hfailing : c.failing = true → c'.failing = true) (hout : c'.out = c.out)
  | returns (hpc : c.pc = .leaving) (hnext : c'.pc = .returned) (hresp : c'.resp = c.resp)
      (hout : c'.out = some c.resp)

theorem LocalStep.phase {c c' : Call} (h : LocalStep s c c') :
    CallPhase s c c' ∧ c'.kind = c.kind ∧ c'.cut = c.cut := by
  cases h with
  | connected hpc hsocket => exact ⟨.starts hpc (.inl ⟨rfl, hsocket⟩) rfl, rfl, rfl⟩
  | unconnected hpc hsocket => exact ⟨.starts hpc (.inr rfl) rfl, rfl, rfl⟩
  | typed hpc | refused hpc | formatSync hpc | formatAsync hpc | pointSync hpc | pointAsync hpc
  | incLoad hpc | setMode hpc =>
    exact ⟨.sends (by simp [hpc, CallPc.beforeWrite]) (by simp) rfl, rfl, rfl⟩
  | signaled hpc | timedOut hpc | decLoad hpc =>
    exact ⟨.waits (by simp [hpc, CallPc.afterWrite]) (.inl rfl) (by simp [Call.failing, hpc]) rfl,
      rfl, rfl⟩

theorem CallStep.phase [DecidableEq ι] (h : CallStep s i s') (hs : Unbroken s) :
    CallPhase s (s.call i) (s'.call i) ∧ (s'.call i).kind = (s.call i).kind ∧
      (s'.call i).cut = (s.call i).cut ∧
      ∃ l, s'.log = s.log ++ l ∧ ∀ j, .null j ∉ l ∧ .dangling j ∉ l := by
  cases h with
  | null hpc hsocket =>
    have hbefore := CallPc.beforeWrite_of_readsSocket hpc
    simp [hs.socket hsocket i] at hbefore
  | dangling hpc hdeleted =>
    rcases CallPc.needs_of_usesManage hpc with hneeds | hneeds
    · simp [hs.socket (hs.connected.deleted hdeleted) i] at hneeds
    · simp [hs.deleted hdeleted i] at hneeds
  | «local» c hlocal =>
    obtain ⟨hphase, hkind, hcut⟩ := hlocal.phase
    exact ⟨by simpa using hphase, by simpa using hkind, by simpa using hcut, [], by simp, by simp⟩
  | lockSync hpc | lockAsync hpc | incStore _ hpc | lockResp hpc | printSync hpc | printAsync hpc
  | publish hpc =>
    exact ⟨.sends (by simp [hpc, CallPc.beforeWrite]) (by simp) (by simp), by simp, by simp, [],
      by simp, by simp⟩
  | writeSync hpc | writeAsync hpc =>
    exact ⟨.sends (by simp [hpc, CallPc.beforeWrite]) (by simp) (by simp), by simp, by simp, _, rfl,
      by simp⟩
  | wait hpc | decStore _ hpc | unlockResp hpc | unlockAmi hpc =>
    exact ⟨.waits (by simp [hpc, CallPc.afterWrite]) (by simp [CallPc.afterWrite])
      (by simp [Call.failing, hpc]) (by simp), by simp, by simp, [], by simp, by simp⟩
  | relock timedOut hpc =>
    refine ⟨.waits (by simp [hpc, CallPc.afterWrite]) (by simp [CallPc.afterWrite]) ?_ (by simp),
      by simp, by simp, [], by simp, by simp⟩
    cases timedOut <;> simp [Call.failing, hpc]
  | leave hpc => exact ⟨.returns hpc (by simp) (by simp) (by simp), by simp, by simp, _, rfl, by simp⟩

theorem Call.CutOff.phase {c c' : Call} (h : c.CutOff) (hphase : CallPhase s c c')
    (hkind : c'.kind = c.kind) : c'.CutOff := by
  have hnot (hpc : c.pc.afterWrite = false) (hleaving : c.pc ≠ .leaving) : c.pc = .returned := by
    rcases h.way with hway | hway | ⟨hway, -⟩
    · simp [hpc] at hway
    · exact absurd hway hleaving
    · exact hway
  cases hphase with
  | starts hpc hnext hout => simp [hpc, CallPc.afterWrite] at hnot
  | sends hpc hnext hout =>
    have hreturned := hnot (CallPc.afterWrite_of_beforeWrite hpc)
      (by rintro hc; simp [hc, CallPc.beforeWrite] at hpc)
    simp [hreturned, CallPc.beforeWrite] at hpc
  | waits hpc hnext hfailing hout =>
    refine ⟨hnext.imp_right .inl, fun hsync => hfailing (h.failing (hkind ▸ hsync))⟩
  | returns hpc hnext hresp hout =>
    refine ⟨.inr (.inr ⟨hnext, hout.trans (congrArg some hresp.symm)⟩), fun hsync => ?_⟩
    have hfailing := h.failing (hkind ▸ hsync)
    simpa [Call.failing, hpc, hnext, hresp] using hfailing

section Phase

variable {c c' : Call}

theorem CallPhase.uncrashed (h : CallPhase s c c') : c'.pc ≠ .crashed := by
  cases h with
  | starts hpc hnext hout => rcases hnext with ⟨hnext, -⟩ | hnext <;> simp [hnext]
  | sends hpc hnext hout => exact hnext.1
  | waits hpc hnext hfailing hout =>
    rintro hcrashed
    simp [hcrashed, CallPc.afterWrite] at hnext
  | returns hpc hnext hresp hout => simp [hnext]

theorem CallPhase.unreturned (h : CallPhase s c c') (hc : c.pc ≠ .returned → c.out = none)
    (hpc' : c'.pc ≠ .returned) : c'.out = none := by
  cases h with
  | starts hpc hnext hout => exact hout.trans (hc (by simp [hpc]))
  | sends hpc hnext hout =>
    exact hout.trans (hc fun hc => by simp [hc, CallPc.beforeWrite] at hpc)
  | waits hpc hnext hfailing hout =>
    exact hout.trans (hc fun hc => by simp [hc, CallPc.afterWrite] at hpc)
  | returns hpc hnext hresp hout => exact absurd hnext hpc'

/-- Without `ami_socket` no call comes to the points at which it is read. -/
theorem CallPhase.beforeWrite (h : CallPhase s c c') (hsocket : s.socket = false)
    (hc : c.pc.beforeWrite = false) : c'.pc.beforeWrite = false := by
  cases h with
  | starts hpc hnext hout =>
    rcases hnext with ⟨-, hconnected⟩ | hnext
    · simp [hsocket] at hconnected
    · simp [hnext, CallPc.beforeWrite]
  | sends hpc hnext hout => simp [hc] at hpc
  | waits hpc hnext hfailing hout =>
    rcases hnext with hnext | hnext
    · refine Bool.eq_false_iff.mpr fun hbefore => ?_
      simp [CallPc.afterWrite_of_beforeWrite hbefore] at hnext
    · simp [hnext, CallPc.beforeWrite]
  | returns hpc hnext hresp hout => simp [hnext, CallPc.beforeWrite]

theorem CallPhase.afterWrite (h : CallPhase s c c') (hsocket : s.socket = false)
    (hbefore : c.pc.beforeWrite = false) (hc : c.pc.afterWrite = false) :
    c'.pc.afterWrite = false := by
  cases h with
  | starts hpc hnext hout =>
    rcases hnext with ⟨-, hconnected⟩ | hnext
    · simp [hsocket] at hconnected
    · simp [hnext, CallPc.afterWrite]
  | sends hpc hnext hout => simp [hbefore] at hpc
  | waits hpc hnext hfailing hout => simp [hc] at hpc
  | returns hpc hnext hresp hout => simp [hnext, CallPc.afterWrite]

end Phase

theorem Unbroken.callStep [DecidableEq ι] (h : Unbroken s) (hstep : CallStep s i s') :
    Unbroken s' := by
  have hlocked := callStep_locked h.locked hstep
  have hframe := hstep.frame
  obtain ⟨hphase, hkind, hcut, l, hlog, hl⟩ := hstep.phase h
  -- the call that moves, and the others
  have hcase (p : Call → Prop) (hother : ∀ j, p (s.call j)) (hi : p (s'.call i)) (j : ι) :
      p (s'.call j) := by
    by_cases hji : j = i
    · rwa [hji]
    · rw [hframe.other j hji]
      exact hother j
  refine ⟨hlocked, ?_, fun j => ?_, callStep_connected h.connected hstep, ?_, ?_, ?_, ?_⟩
  · exact hcase (fun c => c.pc ≠ .crashed) h.uncrashed hphase.uncrashed
  · rw [hlog, List.mem_append, List.mem_append]
    exact ⟨not_or.mpr ⟨(h.unmarked j).1, (hl j).1⟩, not_or.mpr ⟨(h.unmarked j).2, (hl j).2⟩⟩
  · rw [hframe.socket]
    intro hsocket
    exact hcase (fun c => c.pc.beforeWrite = false) (h.socket hsocket)
      (hphase.beforeWrite hsocket (h.socket hsocket i))
  · rw [hframe.deleted]
    intro hdeleted
    have hsocket := h.connected.deleted hdeleted
    exact hcase (fun c => c.pc.afterWrite = false) (h.deleted hdeleted)
      (hphase.afterWrite hsocket (h.socket hsocket i) (h.deleted hdeleted i))
  · exact hcase (fun c => c.pc ≠ .returned → c.out = none) h.unreturned
      (hphase.unreturned (h.unreturned i))
  · rw [hframe.socket]
    exact hcase (fun c => c.cut = true → s.socket = false ∧ c.CutOff) h.cut fun hc =>
      have hi := h.cut i (hcut ▸ hc)
      ⟨hi.1, hi.2.phase hphase hkind⟩

-- ════════════════════════════════════════════════════════════════════════
-- Runs
-- ════════════════════════════════════════════════════════════════════════

theorem EventStep.unmarked [DecidableEq ι] (h : EventStep s s') :
    ∃ l, s'.log = s.log ++ l ∧ ∀ i, .null i ∉ l ∧ .dangling i ∉ l := by
  cases h with
  | mode | take | fill | refuse | accept => exact ⟨_, rfl, by simp⟩
  | move | misuse | incStore | lock | clear | wake | noWaiter | decStore | unlock =>
    exact ⟨[], by simp, by simp⟩

theorem Unbroken.eventStep [DecidableEq ι] (h : Unbroken s) (hstep : EventStep s s') :
    Unbroken s' := by
  have hlocked := eventStep_locked h.locked hstep
  have hframe := hstep.frame
  obtain ⟨l, hlog, hl⟩ := hstep.unmarked
  have hsocket : s.socket ≠ false := h.connected.of_event hstep
  have hlost : s'.socket ≠ false := by rwa [hframe.socket]
  have hdeleted : s'.deleted ≠ true := by
    rw [hframe.deleted]
    exact fun hdeleted => hsocket (h.connected.deleted hdeleted)
  refine ⟨hlocked, fun j => ?_, fun j => ?_, eventStep_connected h.connected hstep,
    fun hs => absurd hs hlost, fun hd => absurd hd hdeleted, fun j hj => ?_, fun j hj => ?_⟩
  · rcases hframe.pc j with hj | ⟨-, hwoken⟩
    · rw [hj]
      exact h.uncrashed j
    · simp [hwoken]
  · rw [hlog, List.mem_append, List.mem_append]
    exact ⟨not_or.mpr ⟨(h.unmarked j).1, (hl j).1⟩, not_or.mpr ⟨(h.unmarked j).2, (hl j).2⟩⟩
  · rw [hframe.out]
    rcases hframe.pc j with hpc | ⟨hwaits, -⟩
    · exact h.unreturned j (hpc ▸ hj)
    · exact h.unreturned j (by simp [h.locked.waiters j hwaits])
  · rw [hframe.cut] at hj
    exact absurd (h.cut j hj).1 hsocket

theorem CallPc.afterWrite_of_inFlight {pc : CallPc} (h : pc.inFlight = true)
    (hbefore : pc.beforeWrite = false) : pc.afterWrite = true ∨ pc = .leaving := by
  cases pc <;> simp_all [inFlight, beforeWrite, afterWrite]

theorem step_unbroken [DecidableEq ι] {a : Action ι} (h : Unbroken s) (hok : Undisturbed s a)
    (hstep : step s a = some s') : Unbroken s' := by
  have hlocked := step_locked h.locked hstep
  have hconnected := step_connected h.connected hstep
  cases step_cases hstep with
  | call i s' hcall => exact h.callStep hcall
  | event k s' hevent => exact h.eventStep hevent
  | timeout i hpc =>
    have hcase (p : Call → Prop) (hother : ∀ j, p (s.call j))
        (hi : p { s.call i with pc := .relock true }) (j : ι) :
        p (Function.update s.call i { s.call i with pc := .relock true } j) := by
      by_cases hji : j = i
      · rw [hji]
        simpa using hi
      · simpa [hji] using hother j
    have hwaits : (s.call i).pc.afterWrite = true := by simp [hpc, CallPc.afterWrite]
    refine ⟨hlocked, hcase (fun c => c.pc ≠ .crashed) h.uncrashed (by simp), h.unmarked, hconnected,
      fun hsocket => hcase (fun c => c.pc.beforeWrite = false) (h.socket hsocket) rfl,
      fun hdeleted => ?_, hcase (fun c => c.pc ≠ .returned → c.out = none) h.unreturned ?_,
      hcase (fun c => c.cut = true → s.socket = false ∧ c.CutOff) h.cut fun hc => ?_⟩
    · simp [h.deleted hdeleted i] at hwaits
    · exact fun _ => h.unreturned i (by simp [hpc])
    · exact ⟨(h.cut i hc).1, .inl rfl, fun _ => rfl⟩
  | message m hpc =>
    exact ⟨hlocked, h.uncrashed, h.unmarked, hconnected, h.socket, h.deleted, h.unreturned, h.cut⟩
  | disconnect hpc =>
    refine ⟨hlocked, h.uncrashed, h.unmarked, hconnected, fun _ i => (hok i).1, h.deleted,
      h.unreturned, fun i hi => ⟨rfl, ?_, fun hsync => ?_⟩⟩
    · exact (CallPc.afterWrite_of_inFlight hi (hok i).1).imp_right .inl
    · exact (hok i).2 hsync hi
  | delete hpc =>
    exact ⟨hlocked, h.uncrashed, h.unmarked, hconnected, h.socket, fun _ => hok, h.unreturned,
      h.cut⟩

/-- What a call that has written its action still does on its own. -/
def CallPc.remaining : CallPc → Nat
  | .leaving => 1
  | .unlockAmi => 2
  | .unlockResp => 3
  | .decLoad => 5
  | .waiting => 8
  | .wait => 9
  | .decStore _ => 4
  | .timeoutTest _ => 6
  | .relock _ => 7
  | _ => 0

/-- Nobody else keeps the mutex from a call that has been cut off: all calls that use
`AMI_MANAGE` hold `mutexAMI`, and `ami_event` is over. -/
theorem Unbroken.mutexResp_free (h : Unbroken s) (hcut : (s.call i).cut = true) {timedOut : Bool}
    (hpc : (s.call i).pc = .relock timedOut) : s.mutexResp = none := by
  cases hheld : s.mutexResp with
  | none => rfl
  | some k =>
    cases k with
    | event =>
      have hevent := h.locked.holderEvent hheld
      rcases h.connected.lost.mp (h.cut i hcut).1 with hlost | hlost <;>
        simp [hlost, EventPc.holdsResp] at hevent
    | call j =>
      have hresp := (h.locked.holder j hheld).resolve_right (h.uncrashed j)
      have hj := h.locked.ami j (Call.holdsResp_holdsAmi hresp)
      have hi := h.locked.ami i (by simp [Call.holdsAmi, hpc])
      obtain rfl : i = j := Option.some.inj (hi.symm.trans hj)
      simp [Call.holdsResp, hpc] at hresp

theorem callMove_remaining [DecidableEq ι] (hwaiting : (s.call i).pc ≠ .waiting)
    (hremaining : (s.call i).pc.remaining ≠ 0)
    (hfree : ∀ timedOut, (s.call i).pc = .relock timedOut → s.mutexResp = none) :
    ∃ s', callMove s i = some s' ∧ (s'.call i).pc.remaining < (s.call i).pc.remaining := by
  cases hpc : (s.call i).pc with
  | wait => exact ⟨_, by simp only [callMove, hpc]; rfl, by simp [CallPc.remaining]⟩
  | waiting => exact absurd hpc hwaiting
  | relock timedOut =>
    exact ⟨_, by simp only [callMove, hpc, hfree timedOut hpc, if_true]; rfl,
      by simp [CallPc.remaining]⟩
  | timeoutTest timedOut => exact ⟨_, by simp only [callMove, hpc]; rfl, by simp [CallPc.remaining]⟩
  | decLoad => exact ⟨_, by simp only [callMove, hpc]; rfl, by simp [CallPc.remaining]⟩
  | decStore n => exact ⟨_, by simp only [callMove, hpc]; rfl, by simp [CallPc.remaining]⟩
  | unlockResp => exact ⟨_, by simp only [callMove, hpc]; rfl, by simp [CallPc.remaining]⟩
  | unlockAmi => exact ⟨_, by simp only [callMove, hpc]; rfl, by simp [CallPc.remaining]⟩
  | leaving => exact ⟨_, by simp only [callMove, hpc]; rfl, by simp [CallPc.remaining]⟩
  | start | typeTest | fmtTest | sendPtr | lockAmi | incLoad | incStore _ | lockResp | print
  | setMode | publish | write | returned | crashed => simp [hpc, CallPc.remaining] at hremaining

theorem CallPc.remaining_of_afterWrite {pc : CallPc} (h : pc.afterWrite = true) :
    pc.remaining ≠ 0 := by
  cases pc <;> simp_all [remaining, afterWrite]

theorem CallPc.idle_of_remaining {pc : CallPc} (h : pc.remaining ≠ 0) :
    pc.readsSocket = false ∧ (pc.usesManage = true → pc.afterWrite = true) := by
  cases pc <;> simp_all [remaining, readsSocket, usesManage, afterWrite]

/-- A call that has been cut off can take its next step. -/
theorem Unbroken.advance [DecidableEq ι] (h : Unbroken s) (hcut : (s.call i).cut = true)
    (hremaining : (s.call i).pc.remaining ≠ 0) :
    ∃ a s', (a = .call i ∨ a = .timeout i) ∧ Undisturbed s a ∧ step s a = some s' ∧
      (s'.call i).cut = true ∧ (s'.call i).kind = (s.call i).kind ∧
      (s'.call i).pc.remaining < (s.call i).pc.remaining := by
  by_cases hwaiting : (s.call i).pc = .waiting
  · refine ⟨.timeout i, _, .inr rfl, trivial, by simp only [step, hwaiting, if_true]; rfl, ?_⟩
    simp [hcut, hwaiting, CallPc.remaining]
  · obtain ⟨s', hmove, hless⟩ :=
      callMove_remaining hwaiting hremaining fun _ hpc => h.mutexResp_free hcut hpc
    obtain ⟨hreads, huses⟩ := CallPc.idle_of_remaining hremaining
    have hdeleted : ¬ ((s.call i).pc.usesManage = true ∧ s.deleted = true) := by
      rintro ⟨hmanage, hdeleted⟩
      simp [h.deleted hdeleted i] at huses
      simp [huses] at hmanage
    have hstep : step s (.call i) = some s' := by
      rw [step, Ami.callStep, if_neg (by simp [hreads]), if_neg hdeleted]
      exact hmove
    obtain ⟨-, hkind, hcut', -⟩ := (callStep_cases hstep).phase h
    exact ⟨.call i, s', .inl rfl, trivial, hstep, hcut'.trans hcut, hkind, hless⟩

theorem Call.CutOff.result_ne {c : Call} (h : c.CutOff) (hsync : c.kind.sync = true)
    (hpc : c.pc = .returned) : c.resp.result ≠ 0 := by
  simpa [Call.failing, hpc] using h.failing hsync

theorem Unbroken.survives [DecidableEq ι] (h : Unbroken s) : s.Survives where
  unmarked := h.unmarked
  result i hsync hcut r hr := by
    have hoff := (h.cut i hcut).2
    have hpc : (s.call i).pc = .returned := by
      by_contra hpc
      simp [h.unreturned i hpc] at hr
    have hout : (s.call i).out = some (s.call i).resp := by
      rcases hoff.way with hway | hway | ⟨-, hout⟩
      · simp [hpc, CallPc.afterWrite] at hway
      · simp [hpc] at hway
      · exact hout
    obtain rfl : (s.call i).resp = r := Option.some.inj (hout.symm.trans hr)
    exact hoff.result_ne hsync hpc
  returns i hsync hcut := by
    let Inv (s : State ι) : Prop :=
      Unbroken s ∧ (s.call i).cut = true ∧ (s.call i).kind.sync = true
    have hadvance (s : State ι) (hs : Inv s) (hremaining : (s.call i).pc.remaining ≠ 0) :
        ∃ a s', (a = .call i ∨ a = .timeout i) ∧ Undisturbed s a ∧ step s a = some s' ∧ Inv s' ∧
          (s'.call i).pc.remaining < (s.call i).pc.remaining := by
      obtain ⟨hs, hcut, hsync⟩ := hs
      obtain ⟨a, s₁, ha, hok, hstep, hcut₁, hkind, hless⟩ := hs.advance hcut hremaining
      exact ⟨a, s₁, ha, hok, hstep, ⟨step_unbroken hs hok hstep, hcut₁, hkind ▸ hsync⟩, hless⟩
    obtain ⟨as, s', has, hexec, ⟨h', hcut', hsync'⟩, hzero⟩ :=
      Exec.exists_of_rank step Undisturbed Inv (fun a => a = .call i ∨ a = .timeout i)
        (fun s => (s.call i).pc.remaining) hadvance ⟨h, hcut, hsync⟩
    have hoff := (h'.cut i hcut').2
    rcases hoff.way with hway | hway | ⟨hpc, hout⟩
    · exact absurd hzero (CallPc.remaining_of_afterWrite hway)
    · simp [hway, CallPc.remaining] at hzero
    · exact ⟨as, s', _, has, hexec, hout, hoff.result_ne hsync' hpc⟩

/-- No call is harmed by the loss of the connection, in every run in which it is closed while no
call needs it. -/
theorem disconnect_survived [DecidableEq ι] (kind : ι → Kind) (n : UInt32) (as : List (Action ι))
    (s : State ι) (h : Exec step Undisturbed (State.init kind n) as s) : s.Survives := by
  have hinv : Unbroken s :=
    h.invariant (fun _ _ _ hok hs hstep => step_unbroken hs hok hstep) (.init kind n)
  exact hinv.survives

/-- The connection is lost while call 0 waits, and is deleted after its return; call 1 comes
too late. -/
theorem disconnect_survived_waiting :
    ∃ s, Exec step Undisturbed (State.init (fun _ : Fin 2 => { sync := true }) 0)
        (sendRun 0 ++ [.disconnect, .timeout 0] ++ resumeRun 0 ++ [.delete, .call 1, .call 1]) s ∧
      (s.call 0).cut = true ∧ ((s.call 0).out.map AmiResponse.result) = some (-8) ∧
      ((s.call 1).out.map AmiResponse.result) = some (-99) ∧ s.Survives := by
  have hrun : (check step Undisturbed (State.init (fun _ : Fin 2 => { sync := true }) 0)
      (sendRun 0 ++ [.disconnect, .timeout 0] ++ resumeRun 0 ++ [.delete, .call 1, .call 1])).any
      (fun s => decide ((s.call 0).cut = true ∧
        ((s.call 0).out.map AmiResponse.result) = some (-8) ∧
        ((s.call 1).out.map AmiResponse.result) = some (-99))) = true := by decide +kernel
  obtain ⟨s, hexec, hs⟩ := Exec.exists_of_check hrun
  obtain ⟨hcut, hresult, hlate⟩ := of_decide_eq_true hs
  exact ⟨s, hexec, hcut, hresult, hlate, disconnect_survived _ 0 _ s hexec⟩

/-- The connection is lost right after call 0 has tested `ami_socket`, and while call 1 waits. -/
theorem disconnect_harms_calls :
    (∃ s, run step (State.init (fun _ : Fin 2 => { sync := true }) 0)
        [.call 0, .disconnect, .call 0] = some s ∧ .null 0 ∈ s.log) ∧
      ∃ s, run step (State.init (fun _ : Fin 2 => { sync := true }) 0)
        (sendRun 1 ++ [.disconnect, .delete, .timeout 1, .call 1]) = some s ∧
        .dangling 1 ∈ s.log := by
  have hnull : (run step (State.init (fun _ : Fin 2 => { sync := true }) 0)
      [.call 0, .disconnect, .call 0]).any (fun s => decide (.null 0 ∈ s.log)) = true := by
    decide +kernel
  have hdangling : (run step (State.init (fun _ : Fin 2 => { sync := true }) 0)
      (sendRun 1 ++ [.disconnect, .delete, .timeout 1, .call 1])).any
      (fun s => decide (.dangling 1 ∈ s.log)) = true := by decide +kernel
  obtain ⟨s, hs, hmem⟩ := (Option.any_eq_true ..).mp hnull
  obtain ⟨s', hs', hmem'⟩ := (Option.any_eq_true ..).mp hdangling
  exact ⟨⟨s, hs, of_decide_eq_true hmem⟩, s', hs', of_decide_eq_true hmem'⟩

end Tst.Ami
