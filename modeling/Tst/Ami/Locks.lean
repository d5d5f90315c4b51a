import Tst.Ami.Sync
import Tst.Lib.Execution

/-!
# Who holds the mutexes of `AMI_MANAGE`

## Main definitions

- `Call.holdsAmi`, `Call.holdsResp`, `EventPc.holdsResp` — the points between a lock and its
  unlock
- `Locked` — the mutexes as the positions of the threads have them
- `Connected` — the connection as the position of `ami_event` has it

## Main results

- `step_locked`, `step_connected` — no step breaks them
- `waiting_numbered` — a call that waits is the last one that has been numbered
-/

namespace Tst.Ami

open Execution

/-- The call holds `mutexAMI`. -/
def Call.holdsAmi (c : Call) : Bool :=
  match c.pc with
  | .sendPtr => !c.kind.sync
  | .incLoad | .lockResp | .print | .setMode | .publish | .write | .wait | .waiting | .decLoad
  | .unlockResp | .unlockAmi | .incStore _ | .relock _ | .timeoutTest _ | .decStore _ => true
  | _ => false

/-- The call holds `mutexResp`. -/
def Call.holdsResp (c : Call) : Bool :=
  match c.pc with
  | .print | .write => c.kind.sync
  | .setMode | .publish | .wait | .decLoad | .unlockResp | .timeoutTest _ | .decStore _ => true
  | _ => false

/-- The points that `ami_async` does not come to, as far as they matter for `mutexResp`. -/
def CallPc.syncOnly : CallPc → Bool
  | .incLoad | .lockResp | .setMode | .publish | .incStore _ => true
  | _ => false

/-- The call has printed its number and holds `mutexAMI`. -/
def Call.numbered (c : Call) : Bool :=
  match c.pc with
  | .setMode | .publish | .write | .wait | .waiting | .decLoad | .unlockResp | .unlockAmi
  | .relock _ | .timeoutTest _ | .decStore _ => true
  | _ => false

/-- `ami_event` holds `mutexResp`. -/
def EventPc.holdsResp {ι : Type} : EventPc ι → Bool
  | .take _ | .less .. | .greater .. | .fill .. | .result .. | .clear .. | .signal _ | .decLoad ..
  | .decStore .. | .unlock .. => true
  | _ => false

theorem Call.numbered_holdsAmi {c : Call} (h : c.numbered = true) : c.holdsAmi = true := by
  cases hpc : c.pc <;> simp_all [Call.numbered, Call.holdsAmi]

/-- `mutexResp` is locked under `mutexAMI`. -/
theorem Call.holdsResp_holdsAmi {c : Call} (h : c.holdsResp = true) : c.holdsAmi = true := by
  cases hpc : c.pc <;> simp_all [Call.holdsResp, Call.holdsAmi]

variable {ι : Type} {s s' : State ι} {i : ι}

-- ════════════════════════════════════════════════════════════════════════
-- What a step leaves as it is
-- ════════════════════════════════════════════════════════════════════════

/-- A step of the call `i` concerns no other call, nor the position of `ami_event`. -/
structure CallFrame (s : State ι) (i : ι) (s' : State ι) : Prop where
  other : ∀ j, j ≠ i → s'.call j = s.call j
  event : s'.event = s.event
  messages : s'.messages = s.messages
  socket : s'.socket = s.socket
  deleted : s'.deleted = s.deleted

theorem CallStep.frame [DecidableEq ι] (h : CallStep s i s') : CallFrame s i s' := by
  cases h <;> exact ⟨fun j hj => by simp [hj], rfl, rfl, rfl, rfl⟩

/-- A local step keeps the mutexes and the number of the call. -/
structure LocalFrame (c c' : Call) : Prop where
  ami : c'.holdsAmi = c.holdsAmi
  resp : c'.holdsResp = c.holdsResp
  numbered : c'.numbered = c.numbered
  id : c'.id = c.id
  kind : c'.kind = c.kind
  waiting : c.pc ≠ .waiting
  uncrashed : c.pc ≠ .crashed
  sync : c'.pc.syncOnly = true → c.pc.syncOnly = true

theorem LocalStep.frame {c c' : Call} (h : LocalStep s c c') : LocalFrame c c' := by
  cases h <;> constructor <;>
    simp_all [Call.holdsAmi, Call.holdsResp, Call.numbered, CallPc.syncOnly]

/-- `ami_event` moves a call only by waking it, and leaves the rest of the call to it. -/
structure EventFrame (s s' : State ι) : Prop where
  pc : ∀ j, (s'.call j).pc = (s.call j).pc ∨ j ∈ s.waiters ∧ (s'.call j).pc = .relock false
  kind : ∀ j, (s'.call j).kind = (s.call j).kind
  id : ∀ j, (s'.call j).id = (s.call j).id
  out : ∀ j, (s'.call j).out = (s.call j).out
  cut : ∀ j, (s'.call j).cut = (s.call j).cut
  mutexAMI : s'.mutexAMI = s.mutexAMI
  actionid : s'.actionid = s.actionid
  messages : s'.messages = s.messages
  socket : s'.socket = s.socket
  deleted : s'.deleted = s.deleted

/-- A step that changes at most one response. -/
theorem EventFrame.of_resp [DecidableEq ι] {p : ι} {c : Call}
    (hcall : s'.call = Function.update s.call p c)
    (hpc : c.pc = (s.call p).pc) (hkind : c.kind = (s.call p).kind) (hid : c.id = (s.call p).id)
    (hout : c.out = (s.call p).out) (hcut : c.cut = (s.call p).cut)
    (hmutexAMI : s'.mutexAMI = s.mutexAMI) (hactionid : s'.actionid = s.actionid)
    (hmessages : s'.messages = s.messages) (hsocket : s'.socket = s.socket)
    (hdeleted : s'.deleted = s.deleted) : EventFrame s s' := by
  refine ⟨fun j => .inl ?_, fun j => ?_, fun j => ?_, fun j => ?_, fun j => ?_, hmutexAMI,
    hactionid, hmessages, hsocket, hdeleted⟩
  all_goals
    rw [hcall]
    by_cases hj : j = p
    · subst hj
      simpa
    · simp [hj]

theorem EventStep.frame [DecidableEq ι] (h : EventStep s s') : EventFrame s s' := by
  cases h with
  | take m p resp id hpc hp hresp hid => exact .of_resp rfl rfl rfl rfl rfl rfl rfl rfl rfl rfl rfl
  | fill m p past hpc => exact .of_resp rfl rfl rfl rfl rfl rfl rfl rfl rfl rfl rfl
  | refuse m p hpc => exact .of_resp rfl rfl rfl rfl rfl rfl rfl rfl rfl rfl rfl
  | accept m p resp hpc hresp => exact .of_resp rfl rfl rfl rfl rfl rfl rfl rfl rfl rfl rfl
  | wake m j hpc hj =>
    refine ⟨fun k => ?_, fun k => ?_, fun k => ?_, fun k => ?_, fun k => ?_, rfl, rfl, rfl, rfl, rfl⟩
    all_goals
      by_cases hk : k = j
      · subst hk
        simp [hj]
      · simp [hk]
  | move | mode | misuse | incStore | lock | clear | noWaiter | decStore | unlock =>
    exact ⟨fun _ => .inl rfl, fun _ => rfl, fun _ => rfl, fun _ => rfl, fun _ => rfl, rfl, rfl, rfl,
      rfl, rfl⟩

-- ════════════════════════════════════════════════════════════════════════
-- The mutexes
-- ════════════════════════════════════════════════════════════════════════

/-- The mutexes and the waiters are those that the positions of the threads ask for, and a
number under `mutexAMI` is the last one. -/
structure Locked (s : State ι) : Prop where
  ami : ∀ i, (s.call i).holdsAmi = true → s.mutexAMI = some i
  resp : ∀ i, (s.call i).holdsResp = true → s.mutexResp = some (.call i)
  event : s.event.holdsResp = true → s.mutexResp = some .event
  waiters : ∀ j ∈ s.waiters, (s.call j).pc = .waiting
  numbered : ∀ i, (s.call i).numbered = true → (s.call i).id = s.actionid
  sync : ∀ i, (s.call i).pc.syncOnly = true → (s.call i).kind.sync = true
  holder : ∀ i, s.mutexResp = some (.call i) → (s.call i).holdsResp = true ∨ (s.call i).pc = .crashed
  holderEvent : s.mutexResp = some .event → s.event.holdsResp = true

theorem Locked.init (kind : ι → Kind) (actionid : UInt32) : Locked (.init kind actionid) := by
  exact ⟨fun _ h => absurd h Bool.false_ne_true, fun _ h => absurd h Bool.false_ne_true,
    fun h => absurd h Bool.false_ne_true, fun _ h => absurd h List.not_mem_nil,
    fun _ h => absurd h Bool.false_ne_true, fun _ h => absurd h Bool.false_ne_true,
    fun _ h => absurd h (Option.some_ne_none _).symm,
    fun h => absurd h (Option.some_ne_none _).symm⟩

/-- A step of the call `i` that takes or gives up mutexes. -/
theorem Locked.call (h : Locked s) (hframe : CallFrame s i s')
    (hami : (s'.call i).holdsAmi = true → s'.mutexAMI = some i)
    (hami' : ∀ j, j ≠ i → s.mutexAMI = some j → s'.mutexAMI = some j)
    (hresp : (s'.call i).holdsResp = true → s'.mutexResp = some (.call i))
    (hresp' : ∀ k, k ≠ .call i → (s'.mutexResp = some k ↔ s.mutexResp = some k))
    (hholder : s'.mutexResp = some (.call i) →
      (s'.call i).holdsResp = true ∨ (s'.call i).pc = .crashed)
    (hwaiters : ∀ j ∈ s'.waiters, j ∈ s.waiters ∧ j ≠ i ∨ (s'.call j).pc = .waiting)
    (hnumbered : (s'.call i).numbered = true → (s'.call i).id = s'.actionid)
    (hsync : (s'.call i).pc.syncOnly = true → (s'.call i).kind.sync = true)
    (hactionid : s'.actionid = s.actionid ∨ s.mutexAMI = some i) : Locked s' := by
  refine ⟨fun j hj => ?_, fun j hj => ?_, fun hevent => ?_, fun j hj => ?_, fun j hj => ?_,
    fun j hj => ?_, fun j hj => ?_, fun hevent => ?_⟩
  · by_cases hji : j = i
    · subst hji
      exact hami hj
    · rw [hframe.other j hji] at hj
      exact hami' j hji (h.ami j hj)
  · by_cases hji : j = i
    · subst hji
      exact hresp hj
    · rw [hframe.other j hji] at hj
      exact (hresp' _ (by simpa using hji)).mpr (h.resp j hj)
  · rw [hframe.event] at hevent
    exact (hresp' _ (by simp)).mpr (h.event hevent)
  · rcases hwaiters j hj with ⟨hj, hji⟩ | hj
    · rw [hframe.other j hji]
      exact h.waiters j hj
    · exact hj
  · by_cases hji : j = i
    · subst hji
      exact hnumbered hj
    · rw [hframe.other j hji] at hj ⊢
      rcases hactionid with hactionid | hactionid
      · rw [hactionid]
        exact h.numbered j hj
      · have hholds := h.ami j (Call.numbered_holdsAmi hj)
        rw [hactionid] at hholds
        exact absurd (Option.some.inj hholds).symm hji
  · by_cases hji : j = i
    · subst hji
      exact hsync hj
    · rw [hframe.other j hji] at hj ⊢
      exact h.sync j hj
  · by_cases hji : j = i
    · subst hji
      exact hholder hj
    · rw [hframe.other j hji]
      exact h.holder j ((hresp' _ (by simpa using hji)).mp hj)
  · rw [hframe.event]
    exact h.holderEvent ((hresp' _ (by simp)).mp hevent)

/-- A step of the call `i` between two points at which it holds the same mutexes. -/
theorem Locked.keep (h : Locked s) (hframe : CallFrame s i s')
    (hami : (s'.call i).holdsAmi = true → (s.call i).holdsAmi = true)
    (hresp : (s'.call i).holdsResp = (s.call i).holdsResp ∧ (s.call i).pc ≠ .crashed ∨
      (s'.call i).pc = .crashed)
    (hnumbered : (s'.call i).numbered = true → (s.call i).numbered = true)
    (hid : (s'.call i).id = (s.call i).id)
    (hsync : (s'.call i).pc.syncOnly = true → (s.call i).pc.syncOnly = true)
    (hkind : (s'.call i).kind = (s.call i).kind) (hwaiting : (s.call i).pc ≠ .waiting)
    (hmutexAMI : s'.mutexAMI = s.mutexAMI) (hmutexResp : s'.mutexResp = s.mutexResp)
    (hwaiters : s'.waiters = s.waiters) (hactionid : s'.actionid = s.actionid) : Locked s' := by
  refine h.call hframe (fun hc => ?_) (fun j _ hj => ?_) (fun hc => ?_) (fun k _ => ?_)
    (fun hc => ?_) (fun j hj => ?_) (fun hc => ?_) (fun hc => ?_) (.inl hactionid)
  · exact hmutexAMI.trans (h.ami i (hami hc))
  · exact hmutexAMI.trans hj
  · rcases hresp with ⟨hresp, -⟩ | hcrashed
    · exact hmutexResp.trans (h.resp i (hresp ▸ hc))
    · simp [Call.holdsResp, hcrashed] at hc
  · rw [hmutexResp]
  · rcases hresp with ⟨hresp, hpc⟩ | hcrashed
    · rw [hresp]
      exact .inl ((h.holder i (hmutexResp ▸ hc)).resolve_right hpc)
    · exact .inr hcrashed
  · rw [hwaiters] at hj
    exact .inl ⟨hj, fun hji => hwaiting (hji ▸ h.waiters j hj)⟩
  · rw [hid, hactionid]
    exact h.numbered i (hnumbered hc)
  · rw [hkind]
    exact h.sync i (hsync hc)

theorem Locked.others (h : Locked s) (hpc : (s.call i).pc ≠ .waiting) {p : ι → Prop} :
    ∀ j ∈ s.waiters, j ∈ s.waiters ∧ j ≠ i ∨ p j :=
  fun j hj => .inl ⟨hj, fun hji => hpc (hji ▸ h.waiters j hj)⟩

theorem Locked.not_holder (h : Locked s) (hholds : (s.call i).holdsResp = false)
    (hpc : (s.call i).pc ≠ .crashed) : s.mutexResp ≠ some (.call i) := by
  intro hheld
  rcases h.holder i hheld with hresp | hcrashed
  · simp [hholds] at hresp
  · exact hpc hcrashed

theorem callStep_locked [DecidableEq ι] (h : Locked s) (hstep : CallStep s i s') :
    Locked s' := by
  have hframe := hstep.frame
  cases hstep with
  | null hpc hsocket =>
    have hwaiting : (s.call i).pc ≠ .waiting := fun h => by simp [h, CallPc.readsSocket] at hpc
    exact h.keep hframe (by simp [Call.holdsAmi]) (.inr (by simp)) (by simp [Call.numbered])
      (by simp) (by simp [CallPc.syncOnly]) (by simp) hwaiting rfl rfl rfl rfl
  | dangling hpc hdeleted =>
    have hwaiting : (s.call i).pc ≠ .waiting := fun h => by simp [h, CallPc.usesManage] at hpc
    exact h.keep hframe (by simp [Call.holdsAmi]) (.inr (by simp)) (by simp [Call.numbered])
      (by simp) (by simp [CallPc.syncOnly]) (by simp) hwaiting rfl rfl rfl rfl
  | «local» c hlocal =>
    have hc := hlocal.frame
    exact h.keep hframe (by simp [hc.ami]) (.inl ⟨by simp [hc.resp], hc.uncrashed⟩)
      (by simp [hc.numbered]) (by simp [hc.id]) (by simpa using hc.sync) (by simp [hc.kind])
      hc.waiting rfl rfl rfl rfl
  | incStore n hpc =>
    exact h.keep hframe (by simp [Call.holdsAmi, hpc])
      (.inl ⟨by simp [Call.holdsResp, hpc], by simp [hpc]⟩) (by simp [Call.numbered]) (by simp)
      (by simp [CallPc.syncOnly, hpc]) (by simp) (by simp [hpc]) rfl rfl rfl rfl
  | publish hpc =>
    have hsync := h.sync i (by simp [CallPc.syncOnly, hpc])
    exact h.keep hframe (by simp [Call.holdsAmi, hpc])
      (.inl ⟨by simp [Call.holdsResp, hpc, hsync], by simp [hpc]⟩) (by simp [Call.numbered, hpc])
      (by simp) (by simp [CallPc.syncOnly]) (by simp) (by simp [hpc]) rfl rfl rfl rfl
  | writeSync hpc hsync | writeAsync hpc hsync =>
    exact h.keep hframe (by simp [Call.holdsAmi, hpc])
      (.inl ⟨by simp [Call.holdsResp, hpc, hsync], by simp [hpc]⟩) (by simp [Call.numbered, hpc])
      (by simp) (by simp [CallPc.syncOnly]) (by simp) (by simp [hpc]) rfl rfl rfl rfl
  | decStore n hpc =>
    exact h.keep hframe (by simp [Call.holdsAmi, hpc])
      (.inl ⟨by simp [Call.holdsResp, hpc], by simp [hpc]⟩) (by simp [Call.numbered, hpc])
      (by simp) (by simp [CallPc.syncOnly]) (by simp) (by simp [hpc]) rfl rfl rfl rfl
  | leave hpc =>
    exact h.keep hframe (by simp [Call.holdsAmi])
      (.inl ⟨by simp [Call.holdsResp, hpc], by simp [hpc]⟩) (by simp [Call.numbered]) (by simp)
      (by simp [CallPc.syncOnly]) (by simp) (by simp [hpc]) rfl rfl rfl rfl
  | lockSync hpc hsync hfree | lockAsync hpc hsync hfree =>
    have hnot : s.mutexResp ≠ some (.call i) :=
      h.not_holder (by simp [Call.holdsResp, hpc]) (by simp [hpc])
    exact h.call hframe (fun _ => rfl) (by simp [hfree]) (by simp [Call.holdsResp])
      (fun _ _ => Iff.rfl) (fun hheld => absurd hheld hnot) (h.others (by simp [hpc]))
      (by simp [Call.numbered]) (by simp [CallPc.syncOnly, hsync]) (.inl rfl)
  | lockResp hpc hfree =>
    have hami := h.ami i (by simp [Call.holdsAmi, hpc])
    have hsync := h.sync i (by simp [CallPc.syncOnly, hpc])
    exact h.call hframe (fun _ => hami) (fun _ _ hj => hj) (fun _ => rfl)
      (fun k hk => by simp [hfree, hk.symm]) (fun _ => .inl (by simp [Call.holdsResp, hsync]))
      (h.others (by simp [hpc])) (by simp [Call.numbered]) (by simp [CallPc.syncOnly]) (.inl rfl)
  | printSync hpc hsync =>
    have hami := h.ami i (by simp [Call.holdsAmi, hpc])
    exact h.call hframe (fun _ => hami) (fun _ _ hj => hj)
      (fun _ => h.resp i (by simp [Call.holdsResp, hpc, hsync])) (fun _ _ => Iff.rfl)
      (fun _ => .inl (by simp [Call.holdsResp])) (h.others (by simp [hpc])) (by simp)
      (fun _ => by simpa using hsync) (.inr hami)
  | printAsync hpc hsync =>
    have hami := h.ami i (by simp [Call.holdsAmi, hpc])
    have hnot : s.mutexResp ≠ some (.call i) :=
      h.not_holder (by simp [Call.holdsResp, hpc, hsync]) (by simp [hpc])
    exact h.call hframe (fun _ => hami) (fun _ _ hj => hj) (by simp [Call.holdsResp, hsync])
      (fun _ _ => Iff.rfl) (fun hheld => absurd hheld hnot) (h.others (by simp [hpc])) (by simp)
      (by simp [CallPc.syncOnly]) (.inr hami)
  | wait hpc =>
    have hami := h.ami i (by simp [Call.holdsAmi, hpc])
    have hresp := h.resp i (by simp [Call.holdsResp, hpc])
    refine h.call hframe (fun _ => hami) (fun _ _ hj => hj) (by simp [Call.holdsResp])
      (fun k hk => by simp [hresp, hk.symm]) (by simp) (fun j hj => ?_) (fun _ => ?_)
      (by simp [CallPc.syncOnly]) (.inl rfl)
    · rcases List.mem_append.mp hj with hmem | hmem
      · refine .inl ⟨hmem, ?_⟩
        rintro rfl
        simpa [hpc] using h.waiters j hmem
      · obtain rfl := List.mem_singleton.mp hmem
        simp
    · simpa using h.numbered i (by simp [Call.numbered, hpc])
  | relock timedOut hpc hfree =>
    have hami := h.ami i (by simp [Call.holdsAmi, hpc])
    exact h.call hframe (fun _ => hami) (fun _ _ hj => hj) (fun _ => rfl)
      (fun k hk => by simp [hfree, hk.symm]) (fun _ => .inl (by simp [Call.holdsResp]))
      (h.others (by simp [hpc]))
      (fun _ => by simpa using h.numbered i (by simp [Call.numbered, hpc]))
      (by simp [CallPc.syncOnly]) (.inl rfl)
  | unlockResp hpc =>
    have hami := h.ami i (by simp [Call.holdsAmi, hpc])
    have hresp := h.resp i (by simp [Call.holdsResp, hpc])
    exact h.call hframe (fun _ => hami) (fun _ _ hj => hj) (by simp [Call.holdsResp])
      (fun k hk => by simp [hresp, hk.symm]) (by simp) (h.others (by simp [hpc]))
      (fun _ => by simpa using h.numbered i (by simp [Call.numbered, hpc]))
      (by simp [CallPc.syncOnly]) (.inl rfl)
  | unlockAmi hpc =>
    have hami := h.ami i (by simp [Call.holdsAmi, hpc])
    have hnot : s.mutexResp ≠ some (.call i) :=
      h.not_holder (by simp [Call.holdsResp, hpc]) (by simp [hpc])
    refine h.call hframe (by simp [Call.holdsAmi]) (fun j hj hheld => ?_)
      (by simp [Call.holdsResp]) (fun _ _ => Iff.rfl) (fun hheld => absurd hheld hnot)
      (h.others (by simp [hpc])) (by simp [Call.numbered]) (by simp [CallPc.syncOnly]) (.inl rfl)
    rw [hami] at hheld
    exact absurd (Option.some.inj hheld).symm hj

/-- The points at which `ami_event` holds `mutexResp` begin with its lock and end with its
unlock. -/
theorem EventMove.holdsResp {e e' : EventPc ι} (h : EventMove s e e') :
    e'.holdsResp = e.holdsResp := by
  cases h <;> rfl

/-- A call that waits, or has been woken. -/
theorem Call.holds_of_woken {c c' : Call} (hpc : c.pc = .waiting) {timedOut : Bool}
    (hpc' : c'.pc = .relock timedOut) : c'.holdsAmi = c.holdsAmi ∧ c'.holdsResp = c.holdsResp ∧
      c'.numbered = c.numbered := by
  simp [Call.holdsAmi, Call.holdsResp, Call.numbered, hpc, hpc']

/-- The locks of the calls, when a step of another thread moves none of them but out of its
wait. -/
theorem Locked.woken (h : Locked s)
    (hpc : ∀ j, (s'.call j).pc = (s.call j).pc ∨
      (s.call j).pc = .waiting ∧ ∃ timedOut, (s'.call j).pc = .relock timedOut)
    (hkind : ∀ j, (s'.call j).kind = (s.call j).kind) (hid : ∀ j, (s'.call j).id = (s.call j).id)
    (hmutexAMI : s'.mutexAMI = s.mutexAMI) (hactionid : s'.actionid = s.actionid)
    (hresp : ∀ j, s'.mutexResp = some (.call j) ↔ s.mutexResp = some (.call j))
    (hevent : s'.event.holdsResp = true ↔ s'.mutexResp = some .event)
    (hwaiters : ∀ j ∈ s'.waiters, j ∈ s.waiters ∧ (s'.call j).pc = (s.call j).pc) :
    Locked s' := by
  have hholds : ∀ j, (s'.call j).holdsAmi = (s.call j).holdsAmi ∧
      (s'.call j).holdsResp = (s.call j).holdsResp ∧
      (s'.call j).numbered = (s.call j).numbered := by
    intro j
    rcases hpc j with hj | ⟨hj, timedOut, hwoken⟩
    · simp [Call.holdsAmi, Call.holdsResp, Call.numbered, hj, hkind j]
    · exact Call.holds_of_woken hj hwoken
  refine ⟨fun j hj => ?_, fun j hj => ?_, hevent.mp, fun j hj => ?_, fun j hj => ?_, fun j hj => ?_,
    fun j hj => ?_, hevent.mpr⟩
  · rw [(hholds j).1] at hj
    exact hmutexAMI.trans (h.ami j hj)
  · rw [(hholds j).2.1] at hj
    exact (hresp j).mpr (h.resp j hj)
  · exact (hwaiters j hj).2.trans (h.waiters j (hwaiters j hj).1)
  · rw [(hholds j).2.2] at hj
    rw [hid, hactionid]
    exact h.numbered j hj
  · rw [hkind]
    rcases hpc j with hpc | ⟨-, timedOut, hwoken⟩
    · exact h.sync j (hpc ▸ hj)
    · simp [hwoken, CallPc.syncOnly] at hj
  · rw [(hholds j).2.1]
    rcases h.holder j ((hresp j).mp hj) with hheld | hcrashed
    · exact .inl hheld
    · rcases hpc j with hpc | ⟨hpc, -⟩
      · exact .inr (hpc.trans hcrashed)
      · simp [hcrashed] at hpc

theorem Locked.event_iff (h : Locked s) :
    s.event.holdsResp = true ↔ s.mutexResp = some .event :=
  ⟨h.event, h.holderEvent⟩

/-- A step that moves no call and leaves the mutexes alone. -/
theorem Locked.unmoved (h : Locked s) (hpc : ∀ j, (s'.call j).pc = (s.call j).pc)
    (hkind : ∀ j, (s'.call j).kind = (s.call j).kind) (hid : ∀ j, (s'.call j).id = (s.call j).id)
    (hmutexAMI : s'.mutexAMI = s.mutexAMI) (hactionid : s'.actionid = s.actionid)
    (hmutexResp : s'.mutexResp = s.mutexResp) (hwaiters : s'.waiters = s.waiters)
    (hholds : s'.event.holdsResp = s.event.holdsResp) : Locked s' :=
  h.woken (fun j => .inl (hpc j)) hkind hid hmutexAMI hactionid (fun j => by rw [hmutexResp])
    (by rw [hholds, hmutexResp, h.event_iff]) fun j hj => ⟨hwaiters ▸ hj, hpc j⟩

theorem eventStep_locked [DecidableEq ι] (h : Locked s) (hstep : EventStep s s') :
    Locked s' := by
  have hframe := hstep.frame
  -- all but the lock, the unlock and the signal leave `mutexResp` and the waiters alone
  have hkeep (hmutexResp : s'.mutexResp = s.mutexResp) (hwaiters : s'.waiters = s.waiters)
      (hholds : s'.event.holdsResp = s.event.holdsResp)
      (hpc : ∀ j, (s'.call j).pc = (s.call j).pc) : Locked s' :=
    h.unmoved hpc hframe.kind hframe.id hframe.mutexAMI hframe.actionid hmutexResp hwaiters hholds
  have hresp {p : ι} {c : Call} (hc : c.pc = (s.call p).pc) (j : ι) :
      (Function.update s.call p c j).pc = (s.call j).pc := by
    by_cases hj : j = p
    · subst hj
      simpa using hc
    · simp [hj]
  cases hstep with
  | move e hmove => exact hkeep rfl rfl hmove.holdsResp fun _ => rfl
  | mode m p e hpc he =>
    refine hkeep rfl rfl ?_ fun _ => rfl
    rcases he with rfl | rfl <;> simp [hpc, EventPc.holdsResp]
  | misuse m hpc => exact hkeep rfl rfl (by simp [hpc, EventPc.holdsResp]) fun _ => rfl
  | incStore m n hpc => exact hkeep rfl rfl (by simp [hpc, EventPc.holdsResp]) fun _ => rfl
  | lock m hpc hfree =>
    exact h.woken (fun _ => .inl rfl) (fun _ => rfl) (fun _ => rfl) rfl rfl (by simp [hfree])
      (by simp [EventPc.holdsResp]) fun j hj => ⟨hj, rfl⟩
  | take m p resp id hpc hp hresp' hid =>
    exact hkeep rfl rfl (by simp [hpc, EventPc.holdsResp]) (hresp rfl)
  | fill m p past hpc => exact hkeep rfl rfl (by simp [hpc, EventPc.holdsResp]) (hresp rfl)
  | refuse m p hpc => exact hkeep rfl rfl (by simp [hpc, EventPc.holdsResp]) (hresp rfl)
  | accept m p resp hpc hresp' => exact hkeep rfl rfl (by simp [hpc, EventPc.holdsResp]) (hresp rfl)
  | clear m p hpc => exact hkeep rfl rfl (by simp [hpc, EventPc.holdsResp]) fun _ => rfl
  | wake m j hpc hj =>
    have hevent := h.event (by simp [hpc, EventPc.holdsResp])
    refine h.woken (fun k => ?_) hframe.kind hframe.id rfl rfl (fun _ => Iff.rfl)
      (by simp [hevent, EventPc.holdsResp]) fun k hk => ?_
    · rcases hframe.pc k with hk | ⟨hk, hwoken⟩
      · exact .inl hk
      · exact .inr ⟨h.waiters k hk, false, hwoken⟩
    · obtain ⟨hk, hkj⟩ : k ∈ s.waiters ∧ k ≠ j := by simpa using hk
      exact ⟨hk, by simp [hkj]⟩
  | noWaiter m hpc => exact hkeep rfl rfl (by simp [hpc, EventPc.holdsResp]) fun _ => rfl
  | decStore m done n hpc => exact hkeep rfl rfl (by simp [hpc, EventPc.holdsResp]) fun _ => rfl
  | unlock m done e hpc he =>
    have hevent := h.event (by simp [hpc, EventPc.holdsResp])
    refine h.woken (fun _ => .inl rfl) (fun _ => rfl) (fun _ => rfl) rfl rfl (by simp [hevent])
      ?_ fun j hj => ⟨hj, rfl⟩
    rcases he with rfl | rfl <;> simp [EventPc.holdsResp]

theorem step_locked [DecidableEq ι] {a : Action ι} (h : Locked s) (hstep : step s a = some s') :
    Locked s' := by
  cases step_cases hstep with
  | call i s' hcall => exact callStep_locked h hcall
  | event k s' hevent => exact eventStep_locked h hevent
  | timeout i hpc =>
    refine h.woken (fun j => ?_) (fun j => ?_) (fun j => ?_) rfl rfl (fun _ => Iff.rfl) h.event_iff
      fun j hj => ?_
    · by_cases hj : j = i
      · exact .inr ⟨hj ▸ hpc, true, by simp [hj]⟩
      · simp [hj]
    · by_cases hj : j = i <;> simp [hj]
    · by_cases hj : j = i <;> simp [hj]
    · obtain ⟨hj, hji⟩ : j ∈ s.waiters ∧ j ≠ i := by simpa using hj
      exact ⟨hj, by simp [hji]⟩
  | message m hpc =>
    exact h.unmoved (fun _ => rfl) (fun _ => rfl) (fun _ => rfl) rfl rfl rfl rfl
      (by simp [hpc, EventPc.holdsResp])
  | disconnect hpc =>
    exact h.unmoved (fun _ => rfl) (fun _ => rfl) (fun _ => rfl) rfl rfl rfl rfl
      (by simp [hpc, EventPc.holdsResp])
  | delete hpc =>
    exact h.unmoved (fun _ => rfl) (fun _ => rfl) (fun _ => rfl) rfl rfl rfl rfl
      (by simp [hpc, EventPc.holdsResp])

-- ════════════════════════════════════════════════════════════════════════
-- The connection
-- ════════════════════════════════════════════════════════════════════════

/-- `ami_event` runs only while the connection is there. -/
structure Connected (s : State ι) : Prop where
  lost : s.socket = false ↔ s.event = .disconnected ∨ s.event = .deleted
  deleted : s.deleted = true → s.socket = false

theorem Connected.init (kind : ι → Kind) (n : UInt32) : Connected (.init kind n) :=
  ⟨by simp, by simp⟩

theorem EventMove.runs {e e' : EventPc ι} (h : EventMove s e e') :
    (e ≠ .disconnected ∧ e ≠ .deleted) ∧ e' ≠ .disconnected ∧ e' ≠ .deleted := by
  cases h <;> simp

theorem EventStep.runs [DecidableEq ι] (h : EventStep s s') :
    (s.event ≠ .disconnected ∧ s.event ≠ .deleted) ∧
      s'.event ≠ .disconnected ∧ s'.event ≠ .deleted := by
  cases h with
  | move e hmove => exact hmove.runs
  | mode m p e hpc he | unlock m done e hpc he => rcases he with rfl | rfl <;> simp [hpc]
  | take m p resp id hpc | fill m p past hpc | refuse m p hpc | accept m p resp hpc | misuse m hpc
  | incStore m n hpc | lock m hpc | clear m p hpc | wake m j hpc | noWaiter m hpc
  | decStore m done n hpc => simp [hpc]

theorem Connected.of_event [DecidableEq ι] (h : Connected s) (hstep : EventStep s s') :
    s.socket ≠ false := fun hsocket =>
  (h.lost.mp hsocket).elim hstep.runs.1.1 hstep.runs.1.2

theorem callStep_connected [DecidableEq ι] (h : Connected s) (hstep : CallStep s i s') :
    Connected s' := by
  have hframe := hstep.frame
  refine ⟨?_, ?_⟩
  · rw [hframe.socket, hframe.event]
    exact h.lost
  · rw [hframe.socket, hframe.deleted]
    exact h.deleted

theorem eventStep_connected [DecidableEq ι] (h : Connected s) (hstep : EventStep s s') :
    Connected s' := by
  have hframe := hstep.frame
  refine ⟨?_, ?_⟩
  · rw [hframe.socket]
    exact iff_of_false (h.of_event hstep) (not_or.mpr hstep.runs.2)
  · rw [hframe.socket, hframe.deleted]
    exact h.deleted

theorem step_connected [DecidableEq ι] {a : Action ι} (h : Connected s)
    (hstep : step s a = some s') : Connected s' := by
  cases step_cases hstep with
  | call i s' hcall => exact callStep_connected h hcall
  | event k s' hevent => exact eventStep_connected h hevent
  | timeout i hpc => exact ⟨h.lost, h.deleted⟩
  | message m hpc =>
    have hsocket : s.socket ≠ false := fun hsocket => by simpa [hpc] using h.lost.mp hsocket
    exact ⟨iff_of_false hsocket (by simp), h.deleted⟩
  | disconnect hpc => exact ⟨by simp, fun _ => rfl⟩
  | delete hpc =>
    have hsocket := h.lost.mpr (.inl hpc)
    exact ⟨by simpa using hsocket, fun _ => hsocket⟩

/-- A call that waits for its response is the only one that holds `mutexAMI`, and its number is
the last one that has been given. -/
theorem waiting_numbered [DecidableEq ι] {ok : State ι → Action ι → Prop} (kind : ι → Kind)
    (n : UInt32) (as : List (Action ι)) (s : State ι)
    (h : Exec step ok (State.init kind n) as s) (i : ι) (hpc : (s.call i).numbered = true) :
    (s.call i).id = s.actionid ∧ ∀ j, (s.call j).holdsAmi = true → j = i := by
  have hinv : Locked s :=
    h.invariant (fun _ _ _ _ hs hstep => step_locked hs hstep) (.init kind n)
  refine ⟨hinv.numbered i hpc, fun j hj => ?_⟩
  have hi := hinv.ami i (Call.numbered_holdsAmi hpc)
  rw [hinv.ami j hj] at hi
  exact Option.some.inj hi

end Tst.Ami
