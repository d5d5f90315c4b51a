import Tst.Lib.Update
import Tst.Server.Alive

/-!
# The process monitor

Who has registered follows from `g_processmon_sd` as long as two things do not happen: that a
worker passes the check while another one has passed it and has not stored its number, and that
the number has been given to another connection.

## Main definitions

- `Registered` — one monitor at most, and nobody refused without one
- `orderly` — the steps at which neither happens
- `Monitored` — who has been answered code 201, and where the worker of the last one stands

## Main results

- `registered_of_orderly` — in an orderly run there is one monitor at most, and a connection is
  refused for it only
- `registered_twice` — two workers in the check, and a number that is used again
-/

namespace Tst.Monitor

open CString CQueryString Execution Update
open Pool (Fd Conn)

variable {n : Nat}

-- ════════════════════════════════════════════════════════════════════════
-- What is asked of a state and of a step
-- ════════════════════════════════════════════════════════════════════════

/-- The next step of the worker answers code 201, or stores the number behind that answer. -/
def AlivePhase.passed : AlivePhase → Bool
  | .grant _ | .store _ => true
  | _ => false

/-- The next step of the worker answers code 409. -/
def AlivePhase.refuses : AlivePhase → Bool
  | .refuse _ => true
  | _ => false

namespace State

/-- The step of the worker passes the check. -/
def passes (s : State n) (w : Fin n) : Bool :=
  match s.phase w with
  | .check _ => s.processmonSd = 0
  | .compare c => s.processmonSd = s.sd c
  | .find _ => (s.connect s.processmonSd).isNone
  | _ => false

/-- The step of the worker finds another connection's number in `m_connect`. -/
def finds (s : State n) (w : Fin n) : Bool :=
  match s.phase w with
  | .find _ => (s.connect s.processmonSd).isSome
  | _ => false

/-- The connection that the step takes out of `m_connect`. -/
def removes (s : State n) : Action n → Option Conn
  | .erase c => some c
  | .go w =>
    match s.phase w with
    | .returned c .disconnect => some c
    | _ => none
  | _ => none

end State

/-- One connected WebSocket connection at most has been answered code 201, and where code 409 is
about to be answered, another one that is still connected has. -/
structure Registered (s : State n) : Prop where
  once : ∀ c c', s.Connected c → s.answered c = true → s.Connected c' → s.answered c' = true →
    c = c'
  refused : ∀ w c, s.phase w = .refuse c →
    ∃ c', c' ≠ c ∧ s.Connected c' ∧ s.websocket c' = true ∧ s.answered c' = true

/-- A worker passes the check while no other one has passed it without having stored its number
yet. What a worker finds under the number is the connection that has stored it, and this
connection is not removed before the answer. -/
def orderly (s : State n) (a : Action n) : Prop :=
  (∀ w ∈ a.worker, s.passes w = true → ∀ w', (s.phase w').passed = false) ∧
    (∀ w ∈ a.worker, s.finds w = true → s.connect s.processmonSd = s.registrant) ∧
    ((s.removes a).isSome → s.removes a = s.registrant → ∀ w, (s.phase w).refuses = false)

instance (s : State n) (a : Action n) : Decidable (orderly s a) :=
  inferInstanceAs (Decidable (_ ∧ _ ∧ _))

-- ════════════════════════════════════════════════════════════════════════
-- The monitor
-- ════════════════════════════════════════════════════════════════════════

/-- The worker has not come to the check, or has left it. -/
def AlivePhase.quiet : AlivePhase → Bool
  | .find _ | .refuse _ | .grant _ | .store _ => false
  | _ => true

/-- A connected connection that has been answered code 201 has stored its number, or its worker is
about to. While a worker has passed the check no other connection has been answered. -/
structure Monitored (s : State n) : Prop where
  upgraded : ∀ c, s.websocket c = true → s.life c ≠ .unborn ∧ s.life c ≠ .accepted
  websocket : ∀ c, s.answered c = true → s.websocket c = true
  handled : ∀ w c, (s.phase w).handles = some c → s.websocket c = true
  registrant : ∀ c, s.registrant = some c → s.answered c = true ∧ s.processmonSd = s.sd c
  nobody : s.registrant = none → s.processmonSd = 0
  holder : ∀ c, (s.life c).listed = true → s.answered c = true →
    s.registrant = some c ∨ ∃ w, (s.phase w).passed = true ∧ (s.phase w).handles = some c
  passed : ∀ w, (s.phase w).passed = true → ∀ c, (s.life c).listed = true → s.answered c = true →
    (s.phase w).handles = some c
  once : ∀ w w', (s.phase w).passed = true → (s.phase w').passed = true → w = w'
  stored : ∀ w c, s.phase w = .store c → s.answered c = true
  found : ∀ w c, s.phase w = .find c → s.processmonSd ≠ s.sd c
  refused : ∀ w c, s.phase w = .refuse c →
    ∃ c', c' ≠ c ∧ s.registrant = some c' ∧ (s.life c').listed = true

section Monitored

variable {s s' : State n} {a : Action n} {w : Fin n} {c : Conn}

theorem Monitored.init : Monitored ({} : State n) := by
  constructor <;> simp [Life.listed, AlivePhase.handles, AlivePhase.passed]

/-- A step of the connections. -/
theorem Monitored.frame (h : Monitored s) (hphase : s'.phase = s.phase)
    (hsd : s'.processmonSd = s.processmonSd) (hregistrant : s'.registrant = s.registrant)
    (hanswered : s'.answered = s.answered)
    (hupgraded : ∀ c, s'.websocket c = true → s'.life c ≠ .unborn ∧ s'.life c ≠ .accepted)
    (hwebsocket : ∀ c, s.websocket c = true → s'.websocket c = true ∧ s'.sd c = s.sd c)
    (hlisted : ∀ c, s.answered c = true → (s'.life c).listed = true → (s.life c).listed = true)
    (hkept : ∀ w c c', s.phase w = .refuse c → s.registrant = some c' →
      (s.life c').listed = true → (s'.life c').listed = true) : Monitored s' := by
  constructor
  · exact hupgraded
  · intro c hc
    rw [hanswered] at hc
    exact (hwebsocket c (h.websocket c hc)).1
  · intro w c hc
    rw [hphase] at hc
    exact (hwebsocket c (h.handled w c hc)).1
  · intro c hc
    rw [hregistrant] at hc
    obtain ⟨hans, hnum⟩ := h.registrant c hc
    rw [hanswered, hsd, (hwebsocket c (h.websocket c hans)).2]
    exact ⟨hans, hnum⟩
  · intro hnone
    rw [hregistrant] at hnone
    rw [hsd]
    exact h.nobody hnone
  · intro c hc hans
    rw [hanswered] at hans
    rw [hregistrant, hphase]
    exact h.holder c (hlisted c hans hc) hans
  · intro w hw c hc hans
    rw [hphase] at hw ⊢
    rw [hanswered] at hans
    exact h.passed w hw c (hlisted c hans hc) hans
  · rw [hphase]
    exact h.once
  · rw [hphase, hanswered]
    exact h.stored
  · intro w c hw
    rw [hphase] at hw
    have hws : s.websocket c = true := h.handled w c (by rw [hw]; rfl)
    rw [hsd, (hwebsocket c hws).2]
    exact h.found w c hw
  · intro w c hw
    rw [hphase] at hw
    obtain ⟨c', hne, hreg, hc'⟩ := h.refused w c hw
    exact ⟨c', hne, hregistrant.trans hreg, hkept w c c' hw hreg hc'⟩

/-- A connection comes to another stage. -/
theorem Monitored.relive (h : Monitored s) {l : Life n} {o m : Fd → Option Conn}
    (hl : l ≠ .unborn ∧ l ≠ .accepted)
    (hlisted : s.answered c = true → l.listed = true → (s.life c).listed = true)
    (hkept : (s.life c).listed = true → l.listed = false → s.registrant = some c →
      ∀ w, (s.phase w).refuses = false) :
    Monitored { s.setLife c l with owner := o, connect := m } := by
  have hself : Function.update s.life c l c = l := Function.update_self ..
  refine h.frame rfl rfl rfl rfl ?_ (fun _ hc => ⟨hc, rfl⟩) ?_ ?_
  · intro c' hc'
    by_cases hne : c' = c
    · subst hne
      simpa only [State.setLife, hself] using hl
    · simpa only [State.setLife, Function.update_of_ne hne] using h.upgraded c' hc'
  · intro c' hans hc'
    by_cases hne : c' = c
    · subst hne
      exact hlisted hans (by simpa only [State.setLife, hself] using hc')
    · simpa only [State.setLife, Function.update_of_ne hne] using hc'
  · intro w d c' hw hreg hc'
    by_cases hne : c' = c
    · subst hne
      simp only [State.setLife, hself]
      by_contra hl'
      have hrefuses := hkept hc' (Bool.eq_false_iff.mpr hl') hreg w
      rw [hw] at hrefuses
      cases hrefuses
    · simpa only [State.setLife, Function.update_of_ne hne] using hc'

/-- A worker goes on with its connection. -/
theorem Monitored.setPhase (h : Monitored s) {p : AlivePhase}
    (hhandled : ∀ c, p.handles = some c → s.websocket c = true)
    (hkeeps : (s.phase w).passed = true →
      p.passed = true ∧ p.handles = (s.phase w).handles ∨ s.registrant = (s.phase w).handles)
    (honly : p.passed = true → ∀ w', (s.phase w').passed = true → w' = w)
    (hpassed : p.passed = true → ∀ c, (s.life c).listed = true → s.answered c = true →
      p.handles = some c)
    (hstored : ∀ c, p = .store c → s.answered c = true)
    (hfound : ∀ c, p = .find c → s.processmonSd ≠ s.sd c)
    (hrefused : ∀ c, p = .refuse c →
      ∃ c', c' ≠ c ∧ s.registrant = some c' ∧ (s.life c').listed = true) :
    Monitored (s.setPhase w p) := by
  refine { h with
    handled := ?_, holder := ?_, passed := ?_, once := ?_, stored := ?_, found := ?_, refused := ?_ }
  · exact forall_setPhase (P := fun _ p => ∀ c, p.handles = some c → s.websocket c = true)
      hhandled fun w' _ => h.handled w'
  · intro c hc hans
    obtain hreg | ⟨w', hw', hhandles⟩ := h.holder c hc hans
    · exact .inl hreg
    · by_cases hne : w' = w
      · subst hne
        obtain ⟨hp, hsame⟩ | hreg := hkeeps hw'
        · refine .inr ⟨w', ?_⟩
          simpa only [State.setPhase, Function.update_self] using ⟨hp, hsame.trans hhandles⟩
        · exact .inl (hreg.trans hhandles)
      · refine .inr ⟨w', ?_⟩
        simpa only [State.setPhase, Function.update_of_ne hne] using ⟨hw', hhandles⟩
  · exact forall_setPhase (P := fun _ p => p.passed = true → ∀ c, (s.life c).listed = true →
      s.answered c = true → p.handles = some c) hpassed fun w' _ => h.passed w'
  · intro w₁ w₂ h₁ h₂
    by_cases hne₁ : w₁ = w
    · subst hne₁
      by_cases hne₂ : w₂ = w₁
      · exact hne₂.symm
      · simp only [State.setPhase, Function.update_self, Function.update_of_ne hne₂] at h₁ h₂
        exact (honly h₁ w₂ h₂).symm
    · simp only [State.setPhase, Function.update_of_ne hne₁] at h₁
      by_cases hne₂ : w₂ = w
      · subst hne₂
        simp only [State.setPhase, Function.update_self] at h₂
        exact honly h₂ w₁ h₁
      · simp only [State.setPhase, Function.update_of_ne hne₂] at h₂
        exact h.once w₁ w₂ h₁ h₂
  · exact forall_setPhase (P := fun _ p => ∀ c, p = .store c → s.answered c = true) hstored
      fun w' _ => h.stored w'
  · exact forall_setPhase (P := fun _ p => ∀ c, p = .find c → s.processmonSd ≠ s.sd c) hfound
      fun w' _ => h.found w'
  · exact forall_setPhase (P := fun _ p => ∀ c, p = .refuse c → ∃ c', c' ≠ c ∧
      s.registrant = some c' ∧ (s.life c').listed = true) hrefused fun w' _ => h.refused w'

theorem Monitored.same (h : Monitored s) {p : AlivePhase}
    (hsame : p.handles = (s.phase w).handles) : ∀ c, p.handles = some c → s.websocket c = true :=
  fun c hc => h.handled w c (hsame ▸ hc)

/-- A worker goes on outside the check. -/
theorem Monitored.goOn (h : Monitored s) {p : AlivePhase} (hquiet : p.quiet = true)
    (hhandled : ∀ c, p.handles = some c → s.websocket c = true)
    (hleft : (s.phase w).passed = true → s.registrant = (s.phase w).handles) :
    Monitored (s.setPhase w p) := by
  cases p with
  | find c | refuse c | grant c | store c => cases hquiet
  | _ =>
    exact h.setPhase hhandled (fun hw => .inr (hleft hw)) (by simp [AlivePhase.passed])
      (by simp [AlivePhase.passed]) (by simp) (by simp) (by simp)

/-- No other connection has been answered when a worker passes the check. -/
theorem Monitored.alone (h : Monitored s) (ht : Tracked s) (hpass : s.passes w = true)
    (hnone : ∀ w', (s.phase w').passed = false) (hw : (s.phase w).handles = some c) {c' : Conn}
    (hlisted : (s.life c').listed = true) (hanswered : s.answered c' = true) : c' = c := by
  have hopen' := Tracked.isOpen_of_listed hlisted
  have hopen : (s.life c).isOpen = true := by rw [ht.handled w c hw]; rfl
  obtain hreg | ⟨w', hpassed, -⟩ := h.holder c' hlisted hanswered
  · have hnum : s.processmonSd = s.sd c' := (h.registrant c' hreg).2
    rw [State.passes] at hpass
    cases hphase : s.phase w with
    | check d =>
      have hzero : s.processmonSd = 0 := by simpa [hphase] using hpass
      exact absurd (hnum.symm.trans hzero) (ht.positive c' hopen').ne'
    | compare d =>
      obtain rfl : d = c := by simpa [hphase, AlivePhase.handles] using hw
      have hsd : s.processmonSd = s.sd d := by simpa [hphase] using hpass
      exact ht.unique hopen hopen' (hnum.symm.trans hsd)
    | find d =>
      have hfree : s.connect s.processmonSd = none := by simpa [hphase] using hpass
      rw [hnum, (ht.connect _ c').mpr ⟨rfl, hlisted⟩] at hfree
      cases hfree
    | _ => simp [hphase] at hpass
  · rw [hnone w'] at hpassed
    cases hpassed

/-- A worker passes the check. -/
theorem Monitored.pass (h : Monitored s) (ht : Tracked s) (hpass : s.passes w = true)
    (hnone : ∀ w', (s.phase w').passed = false) (hw : (s.phase w).handles = some c) :
    Monitored (s.setPhase w (.grant c)) := by
  refine h.setPhase (h.same hw.symm) (fun _ => .inl ⟨rfl, hw.symm⟩) ?_ ?_ (by simp) (by simp) (by simp)
  · intro _ w' hw'
    rw [hnone w'] at hw'
    cases hw'
  · intro _ c' hc' hans
    rw [h.alone ht hpass hnone hw hc' hans]
    rfl

/-- Code 201 is answered. -/
theorem Monitored.answer (h : Monitored s) (hpassed : (s.phase w).passed = true)
    (hw : (s.phase w).handles = some c) :
    Monitored { s with answered := Function.update s.answered c true } := by
  refine { h with websocket := ?_, registrant := ?_, holder := ?_, passed := ?_, stored := ?_ }
  · intro c' hc'
    obtain rfl | hold := update_true_eq_true.mp hc'
    · exact h.handled w c' hw
    · exact h.websocket c' hold
  · intro c' hc'
    obtain ⟨hans, hnum⟩ := h.registrant c' hc'
    exact ⟨update_true_eq_true.mpr (.inr hans), hnum⟩
  · intro c' hlisted hans
    obtain rfl | hold := update_true_eq_true.mp hans
    · exact .inr ⟨w, hpassed, hw⟩
    · exact h.holder c' hlisted hold
  · intro w' hw' c' hlisted hans
    obtain rfl | hold := update_true_eq_true.mp hans
    · rw [h.once w' w hw' hpassed]
      exact hw
    · exact h.passed w' hw' c' hlisted hold
  · intro w' c' hw'
    exact update_true_eq_true.mpr (.inr (h.stored w' c' hw'))

/-- The number is stored. -/
theorem Monitored.store (h : Monitored s) (ht : Tracked s) (hw : s.phase w = .store c) :
    Monitored { s with processmonSd := s.sd c, registrant := some c } := by
  have hpassed : (s.phase w).passed = true := by rw [hw]; rfl
  have hlife : s.life c = .connected (some w) := ht.handled w c (by rw [hw]; rfl)
  -- whoever is connected and has been answered is the one that stores
  have honly : ∀ c', (s.life c').listed = true → s.answered c' = true → c' = c := by
    intro c' hc' hans
    have hhandles := h.passed w hpassed c' hc' hans
    rw [hw] at hhandles
    exact (Option.some.inj hhandles).symm
  refine { h with registrant := ?_, nobody := ?_, holder := ?_, found := ?_, refused := ?_ }
  · intro c' hc'
    obtain rfl := Option.some.inj hc'
    exact ⟨h.stored w c hw, rfl⟩
  · intro hnone
    cases hnone
  · intro c' hc' hans
    exact .inl (by rw [honly c' hc' hans])
  · intro w' c' hw' hsd
    have hlife' : s.life c' = .connected (some w') := ht.handled w' c' (by rw [hw']; rfl)
    obtain rfl : c' = c := ht.unique (by rw [hlife]; rfl) (by rw [hlife']; rfl) hsd.symm
    obtain rfl : w = w' := Option.some.inj (Life.connected.inj (hlife.symm.trans hlife'))
    rw [hw] at hw'
    cases hw'
  · intro w' c' hw'
    obtain ⟨d, hne, hreg, hlisted⟩ := h.refused w' c' hw'
    obtain rfl : d = c := honly d hlisted (h.registrant d hreg).1
    exact ⟨d, hne, rfl, hlisted⟩

theorem Monitored.workerStep (h : Monitored s) (ht : Tracked s) (hok : orderly s (.go w))
    (hstep : s.workerStep w = some s') : Monitored s' := by
  have hpass : s.passes w = true → ∀ w', (s.phase w').passed = false := hok.1 w rfl
  have hfinds : s.finds w = true → s.connect s.processmonSd = s.registrant := hok.2.1 w rfl
  rw [State.workerStep] at hstep
  cases hphase : s.phase w with
  | idle => simp [hphase] at hstep
  | reply c reply next =>
    simp only [hphase, Option.some.injEq] at hstep
    subst hstep
    exact h.goOn rfl (h.same (by rw [hphase]; rfl)) (by simp [hphase, AlivePhase.passed])
  | check c =>
    simp only [hphase, Option.some.injEq] at hstep
    subst hstep
    split
    · next hzero =>
      have hp : s.passes w = true := by simp [State.passes, hphase, hzero]
      exact h.pass ht hp (hpass hp) (by rw [hphase]; rfl)
    · exact h.goOn rfl (h.same (by rw [hphase]; rfl)) (by simp [hphase, AlivePhase.passed])
  | compare c =>
    simp only [hphase, Option.some.injEq] at hstep
    subst hstep
    split
    · next hsame =>
      have hp : s.passes w = true := by simp [State.passes, hphase, hsame]
      exact h.pass ht hp (hpass hp) (by rw [hphase]; rfl)
    · next hother =>
      refine h.setPhase (h.same (by rw [hphase]; rfl)) (by simp [hphase, AlivePhase.passed])
        (by simp [AlivePhase.passed]) (by simp [AlivePhase.passed]) (by simp) ?_ (by simp)
      intro c' hc'
      exact AlivePhase.find.inj hc' ▸ hother
  | find c =>
    simp only [hphase, Option.some.injEq] at hstep
    subst hstep
    split
    · next hsome =>
      refine h.setPhase (h.same (by rw [hphase]; rfl)) (by simp [hphase, AlivePhase.passed])
        (by simp [AlivePhase.passed]) (by simp [AlivePhase.passed]) (by simp) (by simp) ?_
      intro c' hc'
      obtain rfl := AlivePhase.refuse.inj hc'
      -- what is found is the registrant
      have hf : s.finds w = true := by simp [State.finds, hphase, hsome]
      obtain ⟨d, hd⟩ := Option.isSome_iff_exists.mp hsome
      have hreg : s.registrant = some d := (hfinds hf).symm.trans hd
      obtain ⟨hsd, hlisted⟩ := (ht.connect _ d).mp hd
      refine ⟨d, ?_, hreg, hlisted⟩
      intro hdc
      exact h.found w c hphase (hdc ▸ hsd.symm)
    · next hnone =>
      have hp : s.passes w = true := by simpa [State.passes, hphase] using hnone
      exact h.pass ht hp (hpass hp) (by rw [hphase]; rfl)
  | refuse c =>
    simp only [hphase, Option.some.injEq] at hstep
    subst hstep
    exact h.goOn rfl (h.same (by rw [hphase]; rfl)) (by simp [hphase, AlivePhase.passed])
  | grant c =>
    simp only [hphase, Option.some.injEq] at hstep
    subst hstep
    have hpassed : (s.phase w).passed = true := by rw [hphase]; rfl
    have hanswer := h.answer (c := c) hpassed (by rw [hphase]; rfl)
    have hsame : (AlivePhase.store c).handles = (s.phase w).handles := by rw [hphase]; rfl
    refine hanswer.setPhase (hanswer.same hsame) (fun _ => .inl ⟨rfl, hsame⟩) ?_ ?_ ?_
      (by simp) (by simp)
    · intro _ w' hw'
      exact hanswer.once w' w hw' hpassed
    · intro _ c' hc' hans
      have hhandles := hanswer.passed w hpassed c' hc' hans
      rwa [hphase] at hhandles
    · intro c' hc'
      rw [AlivePhase.store.inj hc']
      exact Function.update_self ..
  | store c =>
    simp only [hphase, Option.some.injEq] at hstep
    subst hstep
    have hstore := h.store ht hphase
    refine hstore.goOn (p := .returned c .suspend) rfl (hstore.same (w := w) ?_) fun _ => ?_
    · rw [hphase]
      rfl
    · rw [hphase]
      rfl
  | returned c next =>
    have hlife : s.life c = .connected (some w) := ht.handled w c (by rw [hphase]; rfl)
    have hpassed : (s.phase w).passed ≠ true := by simp [hphase, AlivePhase.passed]
    simp only [hphase] at hstep
    split at hstep
    · next hnext =>
      obtain rfl := Option.some.inj hstep
      have hremoves : s.removes (.go w) = some c := by rw [State.removes, hphase, hnext]
      have herase : Monitored (s.erase c (some w)) := by
        refine h.relive (by simp) (fun _ hl => absurd hl (by simp [Life.listed])) fun _ _ hreg => ?_
        exact hok.2.2 (by rw [hremoves]; rfl) (hremoves.trans hreg.symm)
      exact herase.goOn rfl (by simp [AlivePhase.handles]) (fun hp => absurd hp hpassed)
    · obtain rfl := Option.some.inj hstep
      have hlisted : Monitored (s.setLife c (.connected none)) :=
        h.relive (by simp) (fun _ _ => by rw [hlife]; rfl) (by simp [Life.listed])
      exact hlisted.goOn rfl (by simp [AlivePhase.handles]) (fun hp => absurd hp hpassed)
  | close c =>
    have hlife : s.life c = .erased (some w) := ht.closing w c hphase
    have hpassed : (s.phase w).passed ≠ true := by simp [hphase, AlivePhase.passed]
    simp only [hphase, Option.some.injEq] at hstep
    subst hstep
    have hclose : Monitored (s.close c) :=
      h.relive (by simp) (by simp [Life.listed]) (by simp [hlife, Life.listed])
    exact hclose.goOn rfl (by simp [AlivePhase.handles]) (fun hp => absurd hp hpassed)

theorem Monitored.accept (h : Monitored s) (ht : Tracked s) {fd : Fd} :
    Monitored { s.setLife s.fresh .accepted with
      owner := Function.update s.owner fd (some s.fresh)
      sd := Function.update s.sd s.fresh fd
      fresh := s.fresh + 1 } := by
  have hunborn : s.life s.fresh = .unborn := ht.unborn _ le_rfl
  have hne : ∀ c, s.websocket c = true → c ≠ s.fresh := by
    rintro c hc rfl
    exact (h.upgraded _ hc).1 hunborn
  have hlife : ∀ c, c ≠ s.fresh → Function.update s.life s.fresh .accepted c = s.life c :=
    fun c hc => Function.update_of_ne hc ..
  refine h.frame rfl rfl rfl rfl ?_ ?_ ?_ ?_
  · intro c hc
    simpa only [State.setLife, hlife c (hne c hc)] using h.upgraded c hc
  · intro c hc
    exact ⟨hc, Function.update_of_ne (hne c hc) ..⟩
  · intro c hans hc
    simpa only [State.setLife, hlife c (hne c (h.websocket c hans))] using hc
  · intro w c c' _ hreg hc'
    have hans := (h.registrant c' hreg).1
    simpa only [State.setLife, hlife c' (hne c' (h.websocket c' hans))] using hc'

theorem Monitored.upgrade (h : Monitored s) (hlife : s.life c = .connected none) :
    Monitored { s with websocket := Function.update s.websocket c true } := by
  refine h.frame rfl rfl rfl rfl ?_ (fun c' hc' => ⟨update_true_eq_true.mpr (.inr hc'), rfl⟩)
    (fun _ _ hc => hc) fun _ _ _ _ _ hc => hc
  intro c' hc'
  obtain rfl | hold := update_true_eq_true.mp hc'
  · simp [hlife]
  · exact h.upgraded c' hold

theorem Monitored.step (h : Monitored s) (ht : Tracked s) (hok : orderly s a)
    (hstep : step s a = some s') : Monitored s' := by
  cases a with
  | accept fd =>
    obtain ⟨-, rfl⟩ : _ ∧ _ = s' := by simpa [Monitor.step] using hstep
    exact h.accept ht
  | add c =>
    obtain ⟨hlife, rfl⟩ : _ ∧ _ = s' := by simpa [Monitor.step] using hstep
    refine h.relive (by simp) (fun hans _ => ?_) (by simp [Life.listed])
    exact absurd hlife (h.upgraded c (h.websocket c hans)).2
  | upgrade c =>
    obtain ⟨hlife, rfl⟩ : _ ∧ _ = s' := by simpa [Monitor.step] using hstep
    exact h.upgrade hlife
  | erase c =>
    obtain ⟨hlife, rfl⟩ : _ ∧ _ = s' := by simpa [Monitor.step] using hstep
    refine h.relive (by simp) (by simp [Life.listed]) fun _ _ hreg => ?_
    exact hok.2.2 rfl hreg.symm
  | close c =>
    obtain ⟨hlife, rfl⟩ : _ ∧ _ = s' := by simpa [Monitor.step] using hstep
    exact h.relive (by simp) (by simp [Life.listed]) (by simp [hlife, Life.listed])
  | receive w c d a =>
    simp only [Monitor.step, Option.ite_none_right_eq_some] at hstep
    obtain ⟨⟨hidle, hlife, hws⟩, hstep⟩ := hstep
    cases hm : aliveMessage d a with
    | error f => simp [hm] at hstep
    | ok m =>
      simp only [hm, Option.some.injEq] at hstep
      subst hstep
      have hlisted : Monitored (s.setLife c (.connected (some w))) :=
        h.relive (by simp) (fun _ _ => by rw [hlife]; rfl) (by simp [Life.listed])
      refine hlisted.goOn (by cases m <;> rfl) (fun c' hc' => ?_) fun hp => ?_
      · obtain rfl : c = c' := by cases m <;> exact Option.some.inj hc'
        exact hws
      · have hquiet : (s.phase w).passed = true := hp
        rw [hidle] at hquiet
        cases hquiet
  | go w => exact h.workerStep ht hok hstep

theorem Monitored.registered (h : Monitored s) (ht : Tracked s) : Registered s := by
  constructor
  · intro c c' hc hans hc' hans'
    have hlisted := ht.connected_iff.mp hc
    have hlisted' := ht.connected_iff.mp hc'
    obtain hreg | ⟨w, hw, hhandles⟩ := h.holder c hlisted hans
    · obtain hreg' | ⟨w, hw, hhandles⟩ := h.holder c' hlisted' hans'
      · exact Option.some.inj (hreg.symm.trans hreg')
      · exact Option.some.inj ((h.passed w hw c hlisted hans).symm.trans hhandles)
    · exact Option.some.inj (hhandles.symm.trans (h.passed w hw c' hlisted' hans'))
  · intro w c hw
    obtain ⟨c', hne, hreg, hlisted⟩ := h.refused w c hw
    have hans := (h.registrant c' hreg).1
    exact ⟨c', hne, ht.connected_iff.mpr hlisted, h.websocket c' hans, hans⟩

end Monitored

-- ════════════════════════════════════════════════════════════════════════
-- Whole runs
-- ════════════════════════════════════════════════════════════════════════

/-- In an orderly run there is one process monitor at most, and a connection is refused only while
another one that is still connected is the monitor. -/
theorem registered_of_orderly {as : List (Action n)} {s : State n}
    (h : Exec step orderly {} as s) : Registered s := by
  have hboth : Tracked s ∧ Monitored s := by
    apply h.invariant
    · rintro s a s' hok ⟨ht, hm⟩ hstep
      exact ⟨ht.step hstep, hm.step ht hok hstep⟩
    · exact ⟨.init, .init⟩
  exact hboth.2.registered hboth.1

/-- `id=abcde&check=dxxxb`. -/
def aliveText : List UInt8 :=
  [105, 100, 61, 97, 98, 99, 100, 101, 38, 99, 104, 101, 99, 107, 61, 100, 120, 120, 120, 98]

def aliveFrame : Delivery where
  info := { isText := true, dataLen := 20 }
  data := aliveText

/-- A connection with the descriptor `fd` comes up and is upgraded. -/
def joinRun (fd : Fd) (c : Conn) : List (Action n) := [.accept fd, .add c, .upgrade c]

/-- The connection sends its keep-alive message to a worker, which makes `k` steps. -/
def aliveRun (w : Fin n) (c : Conn) (k : Nat) : List (Action n) :=
  .receive w c aliveFrame zeroArrays :: List.replicate k (.go w)

/-- The first connection registers, and the second one is refused. -/
theorem registered_of_orderly_two : ∃ s : State 2,
    Registered s ∧ s.phase 1 = .refuse 1 ∧ s.Connected 0 ∧ s.answered 0 = true := by
  have hrun : ((check step orderly ({} : State 2)
      (joinRun 5 0 ++ aliveRun 0 0 4 ++ joinRun 6 1 ++ aliveRun 1 1 3)).any fun s =>
      s.phase 1 = .refuse 1 ∧ s.Connected 0 ∧ s.answered 0 = true) = true := by
    decide +kernel
  obtain ⟨s, hexec, hs⟩ := Exec.exists_of_check hrun
  exact ⟨s, registered_of_orderly hexec, of_decide_eq_true hs⟩

/-- Two workers in the check register two connections. A connection of any kind that is given the
number of the process monitor after it has gone keeps everybody else out. -/
theorem registered_twice :
    (∃ as, ∃ s : State 2, Exec step (fun _ _ => True) {} as s ∧
      s.Connected 0 ∧ s.answered 0 = true ∧ s.Connected 1 ∧ s.answered 1 = true) ∧
    ∃ as, ∃ s : State 2, Exec step (fun _ _ => True) {} as s ∧ s.phase 0 = .refuse 2 ∧
      ∀ c, s.Connected c → s.answered c = false := by
  refine ⟨⟨joinRun 5 0 ++ joinRun 6 1 ++ [.receive 0 0 aliveFrame zeroArrays,
    .receive 1 1 aliveFrame zeroArrays, .go 0, .go 1, .go 0, .go 1], ?_⟩,
    joinRun 5 0 ++ aliveRun 0 0 4 ++ [.erase 0, .close 0, .accept 5, .add 1] ++ joinRun 6 2 ++
      aliveRun 0 2 3, ?_⟩
  · have hrun : ((check step (fun _ _ => True) ({} : State 2) (joinRun 5 0 ++ joinRun 6 1 ++
        [.receive 0 0 aliveFrame zeroArrays, .receive 1 1 aliveFrame zeroArrays, .go 0, .go 1,
          .go 0, .go 1])).any fun s =>
        s.Connected 0 ∧ s.answered 0 = true ∧ s.Connected 1 ∧ s.answered 1 = true) = true := by
      decide +kernel
    obtain ⟨s, hexec, hs⟩ := Exec.exists_of_check hrun
    exact ⟨s, hexec, of_decide_eq_true hs⟩
  · have hrun : ((check step (fun _ _ => True) ({} : State 2) (joinRun 5 0 ++ aliveRun 0 0 4 ++
        [.erase 0, .close 0, .accept 5, .add 1] ++ joinRun 6 2 ++ aliveRun 0 2 3)).any fun s =>
        s.phase 0 = .refuse 2 ∧ s.fresh = 3 ∧ ¬ s.Connected 0 ∧ s.answered 1 = false ∧
          s.answered 2 = false) = true := by
      decide +kernel
    obtain ⟨s, hexec, hs⟩ := Exec.exists_of_check hrun
    obtain ⟨hphase, hfresh, h0, h1, h2⟩ := of_decide_eq_true hs
    have ht := Tracked.of_exec hexec
    refine ⟨s, hexec, hphase, fun (c : Nat) hc => ?_⟩
    have hlt : c < 3 := hfresh ▸ ht.born (Tracked.isOpen_of_listed (ht.connected_iff.mp hc))
    obtain rfl | rfl | rfl : c = 0 ∨ c = 1 ∨ c = 2 := by omega
    · exact absurd hc h0
    · exact h1
    · exact h2

end Tst.Monitor
