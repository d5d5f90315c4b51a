import Tst.Ami.Locks

/-!
# What is known of a response

`ami_event` takes a response for the call that `pResp` points at, and compares its `ActionID`
with `actionid`. That is the number of that call only as long as no other action has been
numbered since.

## Main definitions

- `Numbered` — `actionid` is the number of the call whose response is compared with it
- `Filled` — a message has been taken for a call after its action, and carries its number
- `CallMatched`, `EventMatched` — what is known of a call, and of the message in hand

## Main results

- `Matched.callStep` — a step of a call keeps it
-/

namespace Tst.Ami

open Execution

section Points

variable {ι : Type}

/-- The response whose number `ami_event` compares with `actionid`. -/
def EventPc.compares : EventPc ι → Option ι
  | .less _ p _ | .greater _ p _ => some p
  | _ => none

/-- The message in hand, and the call that it has been taken for. -/
def EventPc.hand : EventPc ι → Option (List UInt8 × ι)
  | .less m p _ | .greater m p _ | .fill m p _ | .result m p _ | .clear m p => some (m, p)
  | _ => none

/-- The response has its mode, but not its result. -/
def EventPc.filling : EventPc ι → Option ι
  | .result _ p _ => some p
  | _ => none

/-- The response is complete, and `pResp` still points at it. -/
def EventPc.clearing : EventPc ι → Option ι
  | .clear _ p => some p
  | _ => none

/-- The message that `ami_event` handles. -/
def EventPc.message : EventPc ι → Option (List UInt8)
  | .idle | .disconnected | .deleted => none
  | .test m | .waitcount m | .pointer m | .mode m _ | .misuse m | .incLoad m | .incStore m _
  | .lock m | .take m | .less m _ _ | .greater m _ _ | .fill m _ _ | .result m _ _ | .clear m _
  | .signal m | .decLoad m _ | .decStore m _ _ | .unlock m _ | .handler m => some m

/-- The message may still complete a response. -/
def EventPc.undecided : EventPc ι → Bool
  | .test _ | .waitcount _ | .pointer _ | .mode .. | .misuse _ | .incLoad _ | .incStore .. | .lock _
  | .take _ | .less .. | .greater .. | .fill .. | .result .. => true
  | _ => false

end Points

/-- The call has not published its response. -/
def CallPc.early : CallPc → Bool
  | .start | .typeTest | .fmtTest | .sendPtr | .lockAmi | .incLoad | .lockResp | .print | .setMode
  | .publish | .incStore _ => true
  | _ => false

/-- `pResp` may point at the response. Where a call goes on after a signal it does not. -/
def CallPc.published : CallPc → Bool
  | .write | .wait | .waiting | .decLoad | .unlockResp | .unlockAmi | .leaving | .returned
  | .crashed | .relock true | .timeoutTest true | .decStore _ => true
  | _ => false

/-- The call has seen that it ran into its timeout, or that it did not. -/
def CallPc.late : CallPc → Bool
  | .decLoad | .unlockResp | .unlockAmi | .leaving | .decStore _ => true
  | _ => false

variable {ι : Type} {s s' : State ι} {i : ι}

/-- Whenever `ami_event` compares the number of a response with `actionid`, that is the number
of the call the response is for, unless this call has returned. -/
def Numbered (s : State ι) : Action ι → Prop
  | .event _ => ∀ p ∈ s.event.compares, (s.call p).pc ≠ .returned → s.actionid = (s.call p).id
  | _ => True

instance (s : State ι) : (a : Action ι) → Decidable (Numbered s a)
  | .event _ =>
    Option.decidableForallMem
      (p := fun p => (s.call p).pc ≠ .returned → s.actionid = (s.call p).id) s.event.compares
  | .call _ | .timeout _ | .message _ | .disconnect | .delete => isTrue trivial

/-- The response that `ami_sync` may return as that of the server. -/
def Final (resp : AmiResponse) : Prop :=
  resp.mode = .response ∧ (resp.result = 0 ∨ resp.result = -1)

/-- The response of the call has been completed with the message `n`, which is `m`: the message
has been taken after the action was written, its number is that of the action, and the result is
that of its first value. -/
structure Filled (s : State ι) (i : ι) (resp : AmiResponse) (n : Nat) (m : List UInt8) : Prop where
  completed : (s.call i).completedBy = some n
  message : s.messages[n]? = some m
  parsed : ∃ r₀ r₁, AmiResponse.takeMessage r₀ m = .ok r₁ ∧ resp.responses = r₁.responses
  order : [Mark.wrote i, Mark.took i n].Sublist s.log
  number : resp.responses.actionId = .ok (s.call i).id
  result : ∃ v, resp.responses.firstValue = .ok v ∧
    (resp.result = 0 ↔ textSuccess.isPrefixOf v = true)

/-- The call that `pResp` points at. -/
structure Pending (s : State ι) (i : ι) : Prop where
  sync : (s.call i).kind.sync = true
  pc : (s.call i).pc.published = true
  wrote : (s.call i).pc = .write ∨ .wrote i ∈ s.log ∨ s.socket = false
  mode : (s.call i).resp.mode = .request ∨ s.event.filling = some i ∨ s.event.clearing = some i
  late : (s.call i).pc.late = true → (s.call i).resp.result = -8 ∨ s.event.clearing = some i
  out : ∀ r, (s.call i).out = some r → Final r → s.event.clearing = some i

/-- What is known of a call and its response. -/
structure CallMatched (s : State ι) (i : ι) : Prop where
  early : (s.call i).pc.early = true → (s.call i).resp.mode ≠ .response
  publish : (s.call i).pc = .publish → (s.call i).resp.mode = .request
  pending : s.pResp = some i → Pending s i
  answered : (s.call i).pc ≠ .returned → Final (s.call i).resp →
    (∃ n m, Filled s i (s.call i).resp n m) ∨ s.event.filling = some i
  out : ∀ r, (s.call i).out = some r →
    (s.call i).pc = .returned ∧ (Final r → ∃ n m, Filled s i r n m)
  bound : ∀ n, (s.call i).completedBy = some n → n < s.messages.length

/-- The message in hand has been taken for the call that `pResp` points at. -/
structure Taken (s : State ι) (m : List UInt8) (p : ι) : Prop where
  pResp : s.pResp = some p
  parsed : ∃ r₀ r₁, AmiResponse.takeMessage r₀ m = .ok r₁ ∧
    (s.call p).resp.responses = r₁.responses
  order : [Mark.wrote p, Mark.took p s.current].Sublist s.log

/-- What the comparisons have said of the number of the response, as far as its call has not
returned. -/
def Compared (s : State ι) : EventPc ι → Prop
  | .less _ p id => (s.call p).resp.responses.actionId = .ok id
  | .greater _ p id => (s.call p).resp.responses.actionId = .ok id ∧
      ((s.call p).pc ≠ .returned → ¬ id < (s.call p).id)
  | .fill _ p false | .result _ p false =>
    (s.call p).pc ≠ .returned → (s.call p).resp.responses.actionId = .ok (s.call p).id
  | _ => True

/-- What is known of the message that `ami_event` handles. -/
structure EventMatched (s : State ι) : Prop where
  hand : ∀ m p, s.event.hand = some (m, p) → Taken s m p
  compared : Compared s s.event
  message : ∀ m, s.event.message = some m → s.messages[s.current]? = some m
  signal : ∀ m, s.event = .signal m → s.pResp = none
  fresh : s.event.undecided = true → ∀ j, (s.call j).completedBy ≠ some s.current

structure Matched (s : State ι) : Prop where
  locked : Locked s
  connected : Connected s
  call : ∀ i, CallMatched s i
  event : EventMatched s
  only : ∀ i j n, (s.call i).completedBy = some n → (s.call j).completedBy = some n → i = j

theorem CallMatched.init (kind : ι → Kind) (n : UInt32) (i : ι) :
    CallMatched (.init kind n) i where
  early _ := by simp
  publish h := by simp at h
  pending h := by simp at h
  answered _ h := by simp [Final] at h
  out _ h := by simp at h
  bound _ h := by simp at h

theorem Matched.init (kind : ι → Kind) (n : UInt32) : Matched (.init kind n) where
  locked := .init kind n
  connected := .init kind n
  call i := .init kind n i
  event := ⟨by simp [EventPc.hand], trivial, by simp [EventPc.message], by simp,
    by simp [EventPc.undecided]⟩
  only i j n h := by simp at h

-- ════════════════════════════════════════════════════════════════════════
-- A call
-- ════════════════════════════════════════════════════════════════════════

/-- What has been completed stays so, while the histories grow. -/
theorem Filled.mono {r : AmiResponse} {n : Nat} {m : List UInt8} (h : Filled s i r n m)
    (hcompleted : (s'.call i).completedBy = (s.call i).completedBy)
    (hid : (s'.call i).id = (s.call i).id) (hmessages : s.messages <+: s'.messages)
    (hlog : s.log <+: s'.log) : Filled s' i r n m where
  completed := hcompleted.trans h.completed
  message := by
    obtain ⟨l, hl⟩ := hmessages
    obtain ⟨hlt, -⟩ := List.getElem?_eq_some_iff.mp h.message
    rw [← hl, List.getElem?_append_left hlt]
    exact h.message
  parsed := h.parsed
  order := h.order.trans hlog.sublist
  number := hid ▸ h.number
  result := h.result

theorem CallPc.not_early_of_published {pc : CallPc} (h : pc.published = true) :
    pc.early = false := by
  cases pc with
  | relock timedOut => rfl
  | timeoutTest timedOut => rfl
  | _ => simp_all [published, early]

theorem not_final {r : AmiResponse} (h : r.result = -8) : ¬ Final r := by
  rintro ⟨-, hresult | hresult⟩ <;> simp [h] at hresult

/-- What a step adds to the histories, as far as a call is concerned that is neither completed
nor numbered by it. -/
structure Grows (s s' : State ι) (i : ι) : Prop where
  completed : (s'.call i).completedBy = (s.call i).completedBy
  out : (s'.call i).out = (s.call i).out
  messages : s.messages <+: s'.messages
  log : s.log <+: s'.log
  socket : s.socket = false → s'.socket = false

/-- A step before the call publishes its response, or the one that does. -/
theorem CallMatched.begins (h : CallMatched s i) (hearly : (s.call i).pc.early = true)
    (hgrows : Grows s s' i) (hmode : (s'.call i).resp.mode ≠ .response)
    (hpublish : (s'.call i).pc = .publish → (s'.call i).resp.mode = .request)
    (hpending : s'.pResp = some i → Pending s' i) : CallMatched s' i where
  early _ := hmode
  publish := hpublish
  pending := hpending
  answered _ hfinal := absurd hfinal.1 hmode
  out r hr := by
    rw [hgrows.out] at hr
    have hpc := (h.out r hr).1
    simp [hpc, CallPc.early] at hearly
  bound n hn := by
    rw [hgrows.completed] at hn
    exact Nat.lt_of_lt_of_le (h.bound n hn) hgrows.messages.length_le

/-- A step after which the response is what it was, or says that the call ran into its
timeout. -/
theorem CallMatched.goes (h : CallMatched s i) (hgrows : Grows s s' i)
    (hid : (s'.call i).id = (s.call i).id)
    (hearly : (s'.call i).pc.early = true → (s.call i).pc.early = true)
    (hpublish : (s'.call i).pc = .publish → (s.call i).pc = .publish)
    (hreturned : (s'.call i).pc = .returned ↔ (s.call i).pc = .returned)
    (hresp : (s'.call i).resp = (s.call i).resp ∨
      (s'.call i).resp.mode = (s.call i).resp.mode ∧ (s'.call i).resp.result = -8)
    (hfilling : s.event.filling = some i → s'.event.filling = some i)
    (hpending : s'.pResp = some i → Pending s' i) : CallMatched s' i := by
  have hmode : (s'.call i).resp.mode = (s.call i).resp.mode := by
    rcases hresp with hresp | ⟨hmode, -⟩
    · rw [hresp]
    · exact hmode
  refine ⟨fun hpc => ?_, fun hpc => ?_, hpending, fun hpc hfinal => ?_, fun r hr => ?_,
    fun n hn => ?_⟩
  · rw [hmode]
    exact h.early (hearly hpc)
  · rw [hmode]
    exact h.publish (hpublish hpc)
  · rcases hresp with hresp | ⟨-, hresult⟩
    · rw [hresp] at hfinal ⊢
      rcases h.answered (mt hreturned.mpr hpc) hfinal with ⟨n, m, hfilled⟩ | hevent
      · exact .inl ⟨n, m, hfilled.mono hgrows.completed hid hgrows.messages hgrows.log⟩
      · exact .inr (hfilling hevent)
    · exact absurd hfinal (not_final hresult)
  · rw [hgrows.out] at hr
    obtain ⟨hpc, hfilled⟩ := h.out r hr
    refine ⟨hreturned.mpr hpc, fun hfinal => ?_⟩
    obtain ⟨n, m, hfilled⟩ := hfilled hfinal
    exact ⟨n, m, hfilled.mono hgrows.completed hid hgrows.messages hgrows.log⟩
  · rw [hgrows.completed] at hn
    exact Nat.lt_of_lt_of_le (h.bound n hn) hgrows.messages.length_le

/-- A step that leaves the call as it is, and `pResp` or its position with respect to it. -/
theorem CallMatched.frame (h : CallMatched s i) (hpc : (s'.call i).pc = (s.call i).pc)
    (hkind : (s'.call i).kind = (s.call i).kind) (hid : (s'.call i).id = (s.call i).id)
    (hresp : (s'.call i).resp = (s.call i).resp) (hgrows : Grows s s' i)
    (hfilling : s.event.filling = some i → s'.event.filling = some i)
    (hpResp : s'.pResp = some i → s.pResp = some i ∧ s'.event.filling = s.event.filling ∧
      s'.event.clearing = s.event.clearing) : CallMatched s' i := by
  refine h.goes hgrows hid (by simp [hpc]) (by simp [hpc]) (by simp [hpc]) (.inl hresp) hfilling
    fun hp => ?_
  obtain ⟨hp, hfill, hclear⟩ := hpResp hp
  have hpending := h.pending hp
  refine ⟨by rw [hkind]; exact hpending.sync, by rw [hpc]; exact hpending.pc, ?_, ?_, ?_, ?_⟩
  · rw [hpc]
    exact hpending.wrote.imp_right (Or.imp (fun hmem => hgrows.log.subset hmem) hgrows.socket)
  · rw [hresp, hfill, hclear]
    exact hpending.mode
  · rw [hpc, hresp, hclear]
    exact hpending.late
  · rw [hgrows.out, hclear]
    exact hpending.out

/-- The call that `pResp` points at goes on: with its response as it was, or after its
timeout. -/
theorem Pending.goes (h : Pending s i) (hgrows : Grows s s' i) (hevent : s'.event = s.event)
    (hkind : (s'.call i).kind = (s.call i).kind) (hpc : (s'.call i).pc.published = true)
    (hwrote : .wrote i ∈ s'.log ∨ s'.socket = false)
    (hresp : (s'.call i).resp = (s.call i).resp ∨
      (s'.call i).resp.mode = (s.call i).resp.mode ∧ (s'.call i).resp.result = -8)
    (hlate : (s'.call i).pc.late = true →
      (s.call i).pc.late = true ∨ (s'.call i).resp.result = -8) : Pending s' i where
  sync := hkind ▸ h.sync
  pc := hpc
  wrote := .inr hwrote
  mode := by
    have hmode : (s'.call i).resp.mode = (s.call i).resp.mode := by
      rcases hresp with hresp | ⟨hmode, -⟩
      · rw [hresp]
      · exact hmode
    rw [hmode, hevent]
    exact h.mode
  late hpc' := by
    rw [hevent]
    rcases hlate hpc' with hlate | hresult
    · rcases hresp with hresp | ⟨-, hresult⟩
      · rw [hresp]
        exact h.late hlate
      · exact .inl hresult
    · exact .inl hresult
  out := by
    rw [hgrows.out, hevent]
    exact h.out

-- ════════════════════════════════════════════════════════════════════════
-- Steps of the calls
-- ════════════════════════════════════════════════════════════════════════

theorem CallStep.log_prefix [DecidableEq ι] (h : CallStep s i s') : s.log <+: s'.log := by
  cases h with
  | null | dangling | writeSync | writeAsync | leave => exact List.prefix_append _ _
  | «local» | lockSync | lockAsync | incStore | lockResp | printSync | printAsync | publish | wait
  | relock | decStore | unlockResp | unlockAmi => exact List.prefix_refl _

theorem CallStep.pResp_eq [DecidableEq ι] (h : CallStep s i s') :
    s'.pResp = s.pResp ∨ (s.call i).pc = .publish ∧ s'.pResp = some i := by
  cases h with
  | publish hpc => exact .inr ⟨hpc, rfl⟩
  | _ => exact .inl rfl

theorem CallStep.grows [DecidableEq ι] (h : CallStep s i s')
    (hcompleted : (s'.call i).completedBy = (s.call i).completedBy)
    (hout : (s'.call i).out = (s.call i).out) : Grows s s' i :=
  ⟨hcompleted, hout, h.frame.messages ▸ List.prefix_refl _, h.log_prefix,
    fun hs => h.frame.socket.trans hs⟩

theorem CallMatched.other [DecidableEq ι] {j : ι} (h : CallMatched s j) (hstep : CallStep s i s')
    (hji : j ≠ i) : CallMatched s' j := by
  have hframe := hstep.frame
  have hcall := hframe.other j hji
  refine h.frame (by rw [hcall]) (by rw [hcall]) (by rw [hcall]) (by rw [hcall])
    ⟨by rw [hcall], by rw [hcall], hframe.messages ▸ List.prefix_refl _, hstep.log_prefix,
      fun hs => hframe.socket.trans hs⟩ (by simp [hframe.event]) fun hp => ?_
  rcases hstep.pResp_eq with hpResp | ⟨-, hpResp⟩
  · exact ⟨hpResp ▸ hp, by rw [hframe.event], by rw [hframe.event]⟩
  · exact absurd (Option.some.inj (hp.symm.trans hpResp)) hji

/-- The call on its way to `publish`. -/
theorem CallMatched.early_ne (h : CallMatched s i) (hearly : (s.call i).pc.early = true) :
    s.pResp ≠ some i := fun hp => by
  simp [CallPc.not_early_of_published (h.pending hp).pc] at hearly

/-- A step of the call after its action has been written, or published. -/
theorem CallMatched.later (h : CallMatched s i) (hgrows : Grows s s' i) (hevent : s'.event = s.event)
    (hpResp : s'.pResp = s.pResp) (hkind : (s'.call i).kind = (s.call i).kind)
    (hid : (s'.call i).id = (s.call i).id) (hpc : (s.call i).pc ≠ .returned)
    (hearly : (s'.call i).pc.early = false) (hreturned : (s'.call i).pc ≠ .returned)
    (hresp : (s'.call i).resp = (s.call i).resp ∨
      (s'.call i).resp.mode = (s.call i).resp.mode ∧ (s'.call i).resp.result = -8)
    (hnext : Pending s i → (s'.call i).pc.published = true ∧
      (.wrote i ∈ s'.log ∨ s'.socket = false) ∧
      ((s'.call i).pc.late = true → (s.call i).pc.late = true ∨ (s'.call i).resp.result = -8)) :
    CallMatched s' i := by
  refine h.goes hgrows hid (by simp [hearly]) (fun hpublish => ?_) (by simp [hpc, hreturned]) hresp
    (by simp [hevent]) fun hp => ?_
  · simp [hpublish, CallPc.early] at hearly
  · have hpending := h.pending (hpResp ▸ hp)
    obtain ⟨hpublished, hwrote, hlate⟩ := hnext hpending
    exact hpending.goes hgrows hevent hkind hpublished hwrote hresp hlate

/-- The action has been written, unless the call is about to. -/
theorem Pending.written (h : Pending s i) (hpc : (s.call i).pc ≠ .write) :
    .wrote i ∈ s.log ∨ s.socket = false := h.wrote.resolve_left hpc

theorem CallMatched.crash [DecidableEq ι] (h : CallMatched s i) {mark : Mark ι}
    (hstep : CallStep s i (s.crash i mark)) (hsocket : s.socket = false)
    (hpc : (s.call i).pc ≠ .returned) : CallMatched (s.crash i mark) i := by
  have hgrows : Grows s (s.crash i mark) i := hstep.grows (by simp) (by simp)
  by_cases hearly : (s.call i).pc.early = true
  · exact h.begins hearly hgrows (by simpa using h.early hearly) (by simp)
      fun hp => absurd hp (h.early_ne hearly)
  · exact h.later hgrows rfl rfl (by simp) (by simp) hpc (by simp [CallPc.early]) (by simp)
      (.inl (by simp)) fun hpending => ⟨by simp [CallPc.published], .inr hsocket,
        by simp [CallPc.late]⟩

theorem CallMatched.localStep [DecidableEq ι] (h : CallMatched s i) {c : Call}
    (hlocal : LocalStep s (s.call i) c) : CallMatched (s.setCall i c) i := by
  have hstep : CallStep s i (s.setCall i c) := .local c hlocal
  have hgrows : Grows s (s.setCall i c) i :=
    hstep.grows (by cases hlocal <;> simp) (by cases hlocal <;> simp)
  cases hlocal with
  | connected hpc | unconnected hpc | typed hpc | refused hpc | formatSync hpc | formatAsync hpc
  | pointSync hpc | pointAsync hpc | incLoad hpc =>
    have hearly : (s.call i).pc.early = true := by simp [hpc, CallPc.early]
    exact h.begins hearly hgrows (by simpa using h.early hearly) (by simp)
      fun hp => absurd hp (h.early_ne hearly)
  | setMode hpc =>
    have hearly : (s.call i).pc.early = true := by simp [hpc, CallPc.early]
    exact h.begins hearly hgrows (by simp) (by simp) fun hp => absurd hp (h.early_ne hearly)
  | signaled hpc =>
    exact h.later hgrows rfl rfl (by simp) (by simp) (by simp [hpc]) (by simp [CallPc.early])
      (by simp) (.inl (by simp)) fun hpending => by
        have hpublished := hpending.pc
        simp [hpc, CallPc.published] at hpublished
  | timedOut hpc =>
    exact h.later hgrows rfl rfl (by simp) (by simp) (by simp [hpc]) (by simp [CallPc.early])
      (by simp) (.inr (by simp)) fun hpending =>
        ⟨by simp [CallPc.published], hpending.written (by simp [hpc]), by simp⟩
  | decLoad hpc =>
    exact h.later hgrows rfl rfl (by simp) (by simp) (by simp [hpc]) (by simp [CallPc.early])
      (by simp) (.inl (by simp)) fun hpending =>
        ⟨by simp [CallPc.published], hpending.written (by simp [hpc]), by simp [hpc, CallPc.late]⟩

/-- A call does not return with half a response: it holds `mutexResp` against `ami_event`, or ran
into its timeout. -/
theorem Matched.not_filling (hs : Matched s) (hpc : (s.call i).pc = .leaving)
    (hfinal : Final (s.call i).resp) : s.event.filling ≠ some i := by
  intro hfilling
  obtain ⟨m, p, past, hevent⟩ : ∃ m p past, s.event = .result m p past := by
    cases hevent : s.event <;> simp_all [EventPc.filling]
  obtain rfl : p = i := by simpa [hevent, EventPc.filling] using hfilling
  have htaken := hs.event.hand m p (by simp [hevent, EventPc.hand])
  have hpending := (hs.call p).pending htaken.pResp
  rcases hpending.late (by simp [hpc, CallPc.late]) with hresult | hclearing
  · exact not_final hresult hfinal
  · simp [hevent, EventPc.clearing] at hclearing

theorem CallMatched.leave [DecidableEq ι] (hs : Matched s) (hpc : (s.call i).pc = .leaving)
    (hstep : CallStep s i s')
    (hcall : s'.call i = { s.call i with pc := .returned, out := some (s.call i).resp })
    (hpResp : s'.pResp = s.pResp) : CallMatched s' i := by
  have h := hs.call i
  have hframe := hstep.frame
  have hmessages : s.messages <+: s'.messages := hframe.messages ▸ List.prefix_refl _
  refine ⟨by simp [hcall, CallPc.early], by simp [hcall], fun hp => ?_, by simp [hcall],
    fun r hr => ?_, fun n hn => ?_⟩
  · have hpending := h.pending (hpResp ▸ hp)
    have hlate := hpending.late (by simp [hpc, CallPc.late])
    refine ⟨by simp [hcall, hpending.sync], by simp [hcall, CallPc.published], ?_, ?_,
      by simp [hcall, CallPc.late], fun r hr hfinal => ?_⟩
    · rw [hframe.socket]
      exact .inr ((hpending.written (by simp [hpc])).imp_left fun hm => hstep.log_prefix.subset hm)
    · rw [hframe.event, hcall]
      exact hpending.mode
    · obtain rfl : (s.call i).resp = r := by simpa [hcall] using hr
      rw [hframe.event]
      exact hlate.resolve_left fun hresult => not_final hresult hfinal
  · obtain rfl : (s.call i).resp = r := by simpa [hcall] using hr
    refine ⟨by simp [hcall], fun hfinal => ?_⟩
    obtain ⟨n, m, hfilled⟩ := (h.answered (by simp [hpc]) hfinal).resolve_right
      (hs.not_filling hpc hfinal)
    exact ⟨n, m, hfilled.mono (by simp [hcall]) (by simp [hcall]) hmessages hstep.log_prefix⟩
  · rw [hframe.messages]
    exact h.bound n (by simpa [hcall] using hn)

theorem CallMatched.own [DecidableEq ι] (hs : Matched s) (hstep : CallStep s i s') :
    CallMatched s' i := by
  have h := hs.call i
  have hgrows := hstep.grows
  have hevent := hstep.frame.event
  cases hstep with
  | null hpc hsocket =>
    refine h.crash (.null hpc hsocket) hsocket fun hreturned => ?_
    simp [hreturned, CallPc.readsSocket] at hpc
  | dangling hpc hdeleted =>
    refine h.crash (.dangling hpc hdeleted) (hs.connected.deleted hdeleted) fun hreturned => ?_
    simp [hreturned, CallPc.usesManage] at hpc
  | «local» c hlocal => exact h.localStep hlocal
  | lockSync hpc | lockAsync hpc | incStore _ hpc | lockResp hpc | printSync hpc | printAsync hpc =>
    have hearly : (s.call i).pc.early = true := by simp [hpc, CallPc.early]
    exact h.begins hearly (hgrows (by simp) (by simp)) (by simpa using h.early hearly) (by simp)
      fun hp => absurd hp (h.early_ne hearly)
  | publish hpc =>
    have hearly : (s.call i).pc.early = true := by simp [hpc, CallPc.early]
    have hsync := hs.locked.sync i (by simp [hpc, CallPc.syncOnly])
    have hout (r : AmiResponse) (hr : (s.call i).out = some r) : False := by
      simpa [hpc] using (h.out r hr).1
    refine h.begins hearly (hgrows (by simp) (by simp)) (by simpa using h.early hearly) (by simp)
      fun _ => ⟨by simpa using hsync, by simp [CallPc.published], .inl (by simp),
        .inl (by simpa using h.publish hpc), by simp [CallPc.late], fun r hr => ?_⟩
    exact (hout r (by simpa using hr)).elim
  | writeSync hpc hsync =>
    exact h.later (hgrows (by simp) (by simp)) rfl rfl (by simp) (by simp) (by simp [hpc])
      (by simp [CallPc.early]) (by simp) (.inl (by simp)) fun _ =>
        ⟨by simp [CallPc.published], .inl (by simp), by simp [CallPc.late]⟩
  | writeAsync hpc hsync =>
    exact h.later (hgrows (by simp) (by simp)) rfl rfl (by simp) (by simp) (by simp [hpc])
      (by simp [CallPc.early]) (by simp) (.inl (by simp)) fun hpending => by
        simpa [hsync] using hpending.sync
  | wait hpc =>
    exact h.later (hgrows (by simp) (by simp)) rfl rfl (by simp) (by simp) (by simp [hpc])
      (by simp [CallPc.early]) (by simp) (.inl (by simp)) fun hpending =>
        ⟨by simp [CallPc.published], hpending.written (by simp [hpc]), by simp [CallPc.late]⟩
  | relock timedOut hpc =>
    refine h.later (hgrows (by simp) (by simp)) rfl rfl (by simp) (by simp) (by simp [hpc])
      (by simp [CallPc.early]) (by simp) (.inl (by simp)) fun hpending =>
        ⟨?_, hpending.written (by simp [hpc]), by simp [CallPc.late]⟩
    have hpublished := hpending.pc
    cases timedOut <;> simp_all [CallPc.published]
  | decStore n hpc | unlockResp hpc | unlockAmi hpc =>
    exact h.later (hgrows (by simp) (by simp)) rfl rfl (by simp) (by simp) (by simp [hpc])
      (by simp [CallPc.early]) (by simp) (.inl (by simp)) fun hpending =>
        ⟨by simp [CallPc.published], hpending.written (by simp [hpc]), by simp [hpc, CallPc.late]⟩
  | leave hpc => exact .leave hs hpc (.leave hpc) (by simp) rfl

/-- What no step of a call changes. -/
structure CallKeeps (c c' : Call) : Prop where
  responses : c'.resp.responses = c.resp.responses
  completed : c'.completedBy = c.completedBy
  id : c'.id = c.id ∨ c.pc = .print
  unreturned : c.pc ≠ .returned

theorem CallStep.keeps [DecidableEq ι] (h : CallStep s i s') :
    CallKeeps (s.call i) (s'.call i) := by
  cases h with
  | null hpc hsocket =>
    refine ⟨by simp, by simp, .inl (by simp), fun hreturned => ?_⟩
    simp [hreturned, CallPc.readsSocket] at hpc
  | dangling hpc hdeleted =>
    refine ⟨by simp, by simp, .inl (by simp), fun hreturned => ?_⟩
    simp [hreturned, CallPc.usesManage] at hpc
  | «local» c hlocal => cases hlocal <;> constructor <;> simp [*]
  | printSync hpc | printAsync hpc => exact ⟨by simp, by simp, .inr hpc, by simp [hpc]⟩
  | lockSync hpc | lockAsync hpc | incStore _ hpc | lockResp hpc | publish hpc | writeSync hpc
  | writeAsync hpc | wait hpc | relock _ hpc | decStore _ hpc | unlockResp hpc | unlockAmi hpc
  | leave hpc => exact ⟨by simp, by simp, .inl (by simp), by simp [hpc]⟩

theorem CallStep.completedBy [DecidableEq ι] (h : CallStep s i s') (j : ι) :
    (s'.call j).completedBy = (s.call j).completedBy := by
  by_cases hji : j = i
  · rw [hji]
    exact h.keeps.completed
  · rw [h.frame.other j hji]

/-- A step of a call leaves alone what `ami_event` relies on in a response that is pending. -/
structure Held (s s' : State ι) (p : ι) : Prop where
  responses : (s'.call p).resp.responses = (s.call p).resp.responses
  id : (s'.call p).id = (s.call p).id
  unreturned : (s'.call p).pc ≠ .returned → (s.call p).pc ≠ .returned

theorem Matched.held [DecidableEq ι] (hs : Matched s) (hstep : CallStep s i s') {p : ι}
    (hp : s.pResp = some p) : Held s s' p := by
  by_cases hpi : p = i
  · subst hpi
    obtain ⟨hresponses, -, hid, hunreturned⟩ := hstep.keeps
    refine ⟨hresponses, hid.resolve_right fun hprint => ?_, fun _ => hunreturned⟩
    exact (hs.call p).early_ne (by simp [hprint, CallPc.early]) hp
  · have hcall := hstep.frame.other p hpi
    exact ⟨by rw [hcall], by rw [hcall], by rw [hcall]; exact id⟩

theorem Compared.held {e : EventPc ι} (h : Compared s e)
    (hheld : ∀ m p, e.hand = some (m, p) → Held s s' p) : Compared s' e := by
  cases e with
  | less m p id =>
    have hp := hheld m p rfl
    simpa only [Compared, hp.responses] using h
  | greater m p id =>
    have hp := hheld m p rfl
    simp only [Compared, hp.responses, hp.id] at h ⊢
    exact ⟨h.1, fun hpc => h.2 (hp.unreturned hpc)⟩
  | fill m p past | result m p past =>
    cases past with
    | true => trivial
    | false =>
      have hp := hheld m p rfl
      simp only [Compared, hp.responses, hp.id] at h ⊢
      exact fun hpc => h (hp.unreturned hpc)
  | _ => trivial

theorem EventPc.holdsResp_of_hand {e : EventPc ι} {m : List UInt8} {p : ι}
    (h : e.hand = some (m, p)) : e.holdsResp = true := by
  cases e <;> simp_all [hand, holdsResp]

/-- `publish` needs `mutexResp`. -/
theorem CallStep.pResp_held [DecidableEq ι] (h : CallStep s i s') (hs : Locked s)
    (hevent : s.event.holdsResp = true) : s'.pResp = s.pResp := by
  refine h.pResp_eq.resolve_right fun ⟨hpc, _⟩ => ?_
  have hcall := hs.resp i (by simp [hpc, Call.holdsResp])
  simp [hs.event hevent] at hcall

/-- A call does not touch the message in hand. -/
theorem EventMatched.callStep [DecidableEq ι] (hs : Matched s) (hstep : CallStep s i s') :
    EventMatched s' := by
  have h := hs.event
  have hframe := hstep.frame
  have hcurrent : s'.current = s.current := by rw [State.current, hframe.messages, State.current]
  refine ⟨fun m p hp => ?_, ?_, ?_, fun m hm => ?_, fun hu j => ?_⟩
  · rw [hframe.event] at hp
    obtain ⟨hpResp, ⟨r₀, r₁, htake, hresponses⟩, horder⟩ := h.hand m p hp
    refine ⟨?_, ⟨r₀, r₁, htake, ?_⟩, ?_⟩
    · rw [hstep.pResp_held hs.locked (EventPc.holdsResp_of_hand hp)]
      exact hpResp
    · rw [(hs.held hstep hpResp).responses]
      exact hresponses
    · rw [hcurrent]
      exact horder.trans hstep.log_prefix.sublist
  · rw [hframe.event]
    exact h.compared.held fun m p hp => hs.held hstep (h.hand m p hp).pResp
  · rw [hframe.event, hframe.messages, hcurrent]
    exact h.message
  · rw [hframe.event] at hm
    rw [hstep.pResp_held hs.locked (by simp [hm, EventPc.holdsResp])]
    exact h.signal m hm
  · rw [hframe.event] at hu
    rw [hstep.completedBy, hcurrent]
    exact h.fresh hu j

theorem Matched.callStep [DecidableEq ι] (hs : Matched s) (hstep : CallStep s i s') :
    Matched s' where
  locked := callStep_locked hs.locked hstep
  connected := callStep_connected hs.connected hstep
  call j := by
    by_cases hji : j = i
    · rw [hji]
      exact .own hs hstep
    · exact (hs.call j).other hstep hji
  event := .callStep hs hstep
  only j k n hj hk := hs.only j k n (hstep.completedBy j ▸ hj) (hstep.completedBy k ▸ hk)

end Tst.Ami
