import Tst.Pool.Handoff
import Tst.Pool.Ownership

/-!
# No socket is left disarmed

A one-shot registration is disarmed by every event. While the main loop runs, every
socket has to be armed again or to be on the way to it: its event is fetched, a worker
has it, or `tst_main` is bringing it up.

## Main definitions

- `State.Assigned` — a worker has the connection
- `armedOk` — `accept` succeeds, the listening socket reports connections or its end,
  `epoll_ctl` succeeds, and no job is lost
- `Covers` — every connection that the program lists is at some place

## Main results

- `no_socket_disarmed` — under `armedOk` no socket is left disarmed
- `accept_error_disarms` — in general the listening socket is
-/

namespace Tst.Pool

open Execution

/-- The connection is pending in the slot of worker `i`, or the worker is in its job. -/
def State.Works (s : State) (i : Nat) (c : Conn) : Prop :=
  s.pending i = some c ∨ (s.slot i).pc.working = some c

/-- Worker `i` has the connection: it works on it or closes it. -/
def State.Assigned (s : State) (i : Nat) (c : Conn) : Prop :=
  s.Works i c ∨ ∃ cl, (s.slot i).pc = .closing cl c

/-- `tst_main` has taken the event of the listening socket and will re-arm it. -/
def MainPc.accepting : MainPc → Bool
  | .accepted _ | .add _ | .fconnected _ | .register _ _ | .rearmListen
  | .closing _ (.refused _) => true
  | _ => false

/-- The listening socket is armed, its event is fetched, or `tst_main` is at work on it. -/
def State.ListenCovered (cfg : Config) (s : State) : Prop :=
  (∃ mask, s.reg cfg.sockmain = some ⟨mask, true⟩) ∨ (∃ e ∈ s.fetched, e.src = .listen) ∨
    s.main.accepting = true

/-- `need_send` is called for armed sockets, and no job is lost. -/
def poolOk (s : State) (a : Action) : Bool := needSendOk s a && handoffOk s a

/-- Besides, `epoll_ctl` succeeds, `accept` gives a descriptor, and an event of the
listening socket is a new connection or its end. -/
def armedOk (cfg : Config) (s : State) (a : Action) : Bool :=
  poolOk s a &&
    match a with
    | .main (.ctl ok) | .worker _ (.ctl ok) => ok
    | .main (.accept result) => result.any fun fd => 0 < fd
    | .main .go =>
      match s.main with
      | .event e => e.fd ≠ cfg.sockmain || !cfg.listening || e.events.epollin || e.events.hangup
      | _ => true
    | _ => true

structure Covers (cfg : Config) (s : State) : Prop where
  covered : ∀ fd c, s.connect fd = some c → ∃ k, s.At c k
  registered : ∀ fd c, s.connect fd = some c → s.main.joins ≠ some c → (s.reg fd).isSome
  joining : ∀ c, s.main.joins = some c → s.reg (s.sd c) = none
  listen : cfg.listening = true → s.mainRun = true → s.ListenCovered cfg
  listenReg : cfg.listening = true → (s.reg cfg.sockmain).isSome

section Invariant

variable {cfg : Config} {s s' : State} {i : Nat}

-- ════════════════════════════════════════════════════════════════════════
-- A socket that a worker holds is assigned to it
-- ════════════════════════════════════════════════════════════════════════

/-- Inside a job, up to its last step, no other one is pending. -/
theorem Handoff.pending_of_job {v : MainView} {sl : Slot} (h : Handoff v sl)
    (hin : sl.pc.inJob = true) (hclear : sl.pc ≠ .clearSocket) : sl.pending v = none := by
  have haway : v = .away := by
    by_contra hv
    exact hclear (h.near hv hin)
  simp only [Slot.pending, haway, hin, if_true]

/-- What a worker's own step makes of the job that it has. -/
theorem Slot.Step.keeps {workRun : Bool} {sl sl' : Slot} {inp : WorkerInput}
    {p p' : Option Conn} {c : Conn} (hstep : Slot.Step workRun sl inp sl')
    (hlog : run Mailbox.accept p sl.handLog = some p')
    (h : p = some c ∨ sl.pc.working = some c) : p' = some c ∨ sl'.pc.working = some c := by
  cases hstep with
  | @takeSocket c' hpc hsocket =>
    refine .inr ?_
    have hc : p = some c := by simpa [hpc, WorkerPc.working] using h
    have hc' : c = c' := by
      by_contra hne
      simp [Slot.handLog, hpc, hsocket, run, Mailbox.accept, hc, hne] at hlog
    simp [WorkerPc.working, hc']
  | lockEnd hpc =>
    rcases h with h | h
    · exact .inl (by simpa [Slot.handLog, hpc, run, h, eq_comm] using hlog)
    · exact .inr (by simpa [hpc, WorkerPc.working] using h)
  | @storeNext next hpc | @idleStore next hpc =>
    have hc : p = some c := by simpa [hpc, WorkerPc.working] using h
    by_cases hnext : next = .suspend <;>
      simp_all [Slot.handLog, run, Mailbox.accept]
  | _ =>
    have hc : p = some c := by simpa [*, WorkerPc.working] using h
    simp_all [Slot.handLog, run, Mailbox.accept]

/-- A call of `closesocket` changes nothing about another descriptor. -/
theorem closeStep_other {cl : Closing} {fd : Fd} (hfd : fd ≠ cl.sd) :
    (s.closeStep cl).1.connect fd = s.connect fd ∧ (s.closeStep cl).1.owner fd = s.owner fd ∧
      (s.closeStep cl).1.reg fd = s.reg fd := by
  rcases cl with ⟨sd, _ | _ | _⟩ <;> simp [State.closeStep, hfd]

theorem closeStep_none (cl : Closing) (fd : Fd) :
    (s.connect fd = none → (s.closeStep cl).1.connect fd = none) ∧
      (s.owner fd = none → (s.closeStep cl).1.owner fd = none) ∧
      (s.reg fd = none → (s.closeStep cl).1.reg fd = none) := by
  by_cases hfd : fd = cl.sd
  · subst hfd
    rcases cl with ⟨sd, _ | _ | _⟩ <;> simp [State.closeStep]
  · obtain ⟨hc, ho, hr⟩ := closeStep_other (s := s) hfd
    rw [hc, ho, hr]
    exact ⟨id, id, id⟩

theorem closeStep_holds (s : State) (cl : Closing) : (s.closeStep cl).1.holds = s.holds := by
  rcases cl with ⟨sd, _ | _ | _⟩ <;> rfl

/-- A step of `tst_main` moves no worker, and gives a socket to a worker only at the end of
an assignment. -/
theorem MainStep.frame {inp : MainInput} (hstep : MainStep cfg s inp s') :
    (∀ i, (s'.slot i).pc = (s.slot i).pc) ∧
      ∀ i c, s'.holds i c = true →
        s.holds i c = true ∨ ∃ d, s.main = .setSocket d i ∧ d.conn = c := by
  have hslot : ∀ {j : Nat} {sl : Slot}, sl.pc = (s.slot j).pc →
      ∀ i, ((s.setSlot j sl).slot i).pc = (s.slot i).pc :=
    fun hpc => forall_setSlot (P := fun i sl => sl.pc = (s.slot i).pc) hpc fun _ _ => rfl
  cases hstep with
  | epollWait hpc _ _ hdel =>
    obtain ⟨batch, reg, rfl⟩ := deliver_frame hdel
    rcases takeEvent_cases { s with batch := batch, reg := reg } with ⟨-, ht⟩ | ⟨e, rest, -, ht⟩ <;>
      rw [ht] <;> exact ⟨fun _ => rfl, fun _ _ hc => .inl hc⟩
  | @closing cl _ _ s₁ hpc hclose =>
    obtain rfl : s₁ = (s.closeStep cl).1 := by rw [hclose]
    exact ⟨fun _ => by simp, fun i c hc => .inl (by simpa [closeStep_holds] using hc)⟩
  | @closed cl after s₁ hpc hclose =>
    obtain rfl : s₁ = (s.closeStep cl).1 := by rw [hclose]
    have hafter : ((s.closeStep cl).1.afterClose cfg after).slot = s.slot ∧
        ((s.closeStep cl).1.afterClose cfg after).holds = s.holds := by
      cases after with
      | add c | refused c => simp [State.afterClose, closeStep_holds]
      | event e => by_cases hfd : e.fd = cfg.sockmain <;> simp [State.afterClose, hfd, closeStep_holds]
    rw [hafter.1, hafter.2]
    exact ⟨fun _ => rfl, fun _ _ hc => .inl hc⟩
  | @setSocket d j hpc =>
    refine ⟨hslot rfl, fun i c hc => ?_⟩
    by_cases hi : i = j
    · subst hi
      by_cases hd : c = d.conn
      · exact .inr ⟨d, hpc, hd.symm⟩
      · exact .inl (by simpa [hd] using hc)
    · exact .inl (by simpa [hi] using hc)
  | setRun hpc | exitScanFree hpc | exitStore hpc =>
    exact ⟨hslot rfl, fun _ _ hc => .inl hc⟩
  | _ => exact ⟨fun _ => rfl, fun _ _ hc => .inl hc⟩

/-- A step of `tst_main` leaves every job where it is, or assigns one. -/
theorem MainStep.keeps {inp : MainInput} {c : Conn} (h : s.HandedOff)
    (hstep : MainStep cfg s inp s') (hheld : s.holds i c = true → s.Works i c)
    (hc : s'.holds i c = true) : s'.Works i c := by
  obtain ⟨hpc, hholds⟩ := hstep.frame
  have hlog := (hstep.handoff h i).2
  rcases hholds i c hc with hc | ⟨d, hmain, rfl⟩
  · rcases hheld hc with hp | hw
    · -- an assignment would find the mailbox empty
      have hnone : handLog i s (.main inp) = [] := by
        simp only [handLog]
        split
        · next d j hmain =>
          by_cases hj : j = i
          · simp [handLog, hmain, hj, hp, run, Mailbox.accept] at hlog
          · simp [hj]
        · rfl
      refine .inl ?_
      simpa [hnone, run, hp, eq_comm] using hlog
    · exact .inr (by rw [hpc]; exact hw)
  · have hp : s.pending i = some d.conn := by simp [State.pending, hmain, MainPc.view, Slot.pending]
    have hnone : handLog i s (.main inp) = [] := by simp [handLog, hmain]
    exact .inl (by simpa [hnone, run, hp, eq_comm] using hlog)

/-- Descriptor 0 is not open. -/
def State.Positive (s : State) : Prop := ∀ fd, s.owner fd ≠ none → 0 < fd

theorem positive_init (cfg : Config) : (State.init cfg).Positive := by
  intro fd ho
  by_cases hfd : fd = cfg.sockmain
  · exact hfd ▸ cfg.sockmain_pos
  · revert ho
    simp only [State.init]
    split <;> simp [hfd]

theorem closeStep_positive (h : s.Positive) (cl : Closing) : (s.closeStep cl).1.Positive :=
  fun fd ho => h fd fun hnone => ho ((closeStep_none cl fd).2.1 hnone)

theorem mainStep_positive {inp : MainInput} (h : s.Positive) (hstep : MainStep cfg s inp s') :
    s'.Positive := by
  cases hstep with
  | epollWait hpc _ _ hdel =>
    obtain ⟨batch, reg, rfl⟩ := deliver_frame hdel
    rcases takeEvent_cases { s with batch := batch, reg := reg } with ⟨-, ht⟩ | ⟨e, rest, -, ht⟩ <;>
      rw [ht] <;> exact h
  | @accept e fd hpc hfd hlisten hpos =>
    intro fd' ho
    by_cases hne : fd' = fd
    · exact hne ▸ hpos
    · exact h fd' (by simpa [hne] using ho)
  | @closing cl _ _ s₁ hpc hclose =>
    obtain rfl : s₁ = (s.closeStep cl).1 := by rw [hclose]
    exact closeStep_positive h cl
  | @closed cl after s₁ hpc hclose =>
    obtain rfl : s₁ = (s.closeStep cl).1 := by rw [hclose]
    have hafter : ((s.closeStep cl).1.afterClose cfg after).owner = (s.closeStep cl).1.owner := by
      cases after with
      | add c | refused c => rfl
      | event e => by_cases hfd : e.fd = cfg.sockmain <;> simp [State.afterClose, hfd]
    simpa only [State.Positive, hafter] using closeStep_positive h cl
  | _ => exact h

theorem workerStep_positive {inp : WorkerInput} (h : s.Positive)
    (hstep : WorkerStep s i inp s') : s'.Positive := by
  cases hstep with
  | @closing cl _ _ s₁ hpc hclose | @closed cl _ s₁ hpc hclose =>
    obtain rfl : s₁ = (s.closeStep cl).1 := by rw [hclose]
    exact closeStep_positive h cl
  | _ => exact h

theorem step_positive {a : Action} (h : s.Positive) (hstep : step cfg s a = some s') :
    s'.Positive := by
  revert hstep
  fun_cases step cfg s a <;> intro hstep <;> try cases hstep
  · exact mainStep_positive h (mainStep_cases hstep)
  · exact workerStep_positive h (workerStep_cases hstep)
  · split <;> exact h
  · exact h
  · next cl _ s₁ rest hclose =>
    obtain rfl : s₁ = (s.closeStep cl).1 := by rw [hclose]
    exact closeStep_positive h cl
  · exact h
  · exact h

/-- A worker keeps what it holds until it gives it up. -/
theorem WorkerStep.keeps {inp : WorkerInput} {c : Conn} (hown : Owns cfg s)
    (hpos : s.Positive) (h : s.HandedOff)
    (hok : handoffOk s (.worker i inp) = true) (hstep : WorkerStep s i inp s')
    (hheld : s.holds i c = true → s.Works i c) (hc : s'.holds i c = true) : s'.Works i c := by
  have hlog := (hstep.handoff h hok).2
  -- within the job, what the worker holds is the socket of the job
  have hjob : (s.slot i).pc.inJob = true → (s.slot i).pc ≠ .clearSocket → s.holds i c = true →
      (s.slot i).pc.working = some c := by
    intro hin hclear hc
    rcases hheld hc with hp | hw
    · simp [State.pending, (h i).pending_of_job hin hclear] at hp
    · exact hw
  cases hstep with
  | own hsl =>
    have hkeep := hsl.keeps hlog (hheld hc)
    simpa [State.Works, State.pending] using hkeep
  | @job c₀ k hpc =>
    have hw := hjob (by simp [hpc]) (by simp [hpc]) hc
    refine .inr ?_
    obtain rfl : c₀ = c := by simpa [hpc, WorkerPc.working] using hw
    by_cases hnext : ((s.sock c₀).transfer k).next = .run <;> simp [hnext, WorkerPc.working]
  | @call c₀ next recv send hpc =>
    have hw := hjob (by simp [hpc]) (by simp [hpc]) hc
    refine .inr ?_
    simpa [hpc, WorkerPc.working] using hw
  | @rearmClose c₀ hpc =>
    obtain ⟨hc, hne⟩ := holds_of_release hc
    have hw := hjob (by simp [hpc]) (by simp [hpc]) hc
    exact absurd rfl (hne (by simpa [hpc, WorkerPc.working, eq_comm] using hw))
  | @rearm c₀ next ok hpc =>
    obtain ⟨hc, hne⟩ := holds_of_release (s := s.ctlMod _ _ _) hc
    have hw := hjob (by simp [hpc]) (by simp [hpc]) hc
    exact absurd rfl (hne (by simpa [hpc, WorkerPc.working, eq_comm] using hw))
  | @rearmSkip c₀ next hpc hsd =>
    have hplace : s.At c₀ (.held i) := (hown.slots i).working c₀ (by simp [hpc, WorkerPc.working])
    have hfd := hpos (s.sd c₀) (by simp [hown.live c₀ _ hplace])
    exact absurd hsd (Nat.ne_of_gt hfd)
  | @closing cl _ c₀ s₁ hpc hclose | @closed cl c₀ s₁ hpc hclose =>
    obtain rfl : s₁ = (s.closeStep cl).1 := by rw [hclose]
    have hw := hjob (by simp [hpc]) (by simp [hpc]) (by simpa [closeStep_holds] using hc)
    simp [hpc, WorkerPc.working] at hw

/-- The steps of a worker, on what the other workers hold. -/
theorem WorkerStep.holds_other {inp : WorkerInput} {j : Nat} (hstep : WorkerStep s i inp s')
    (hj : j ≠ i) : s'.holds j = s.holds j := by
  cases hstep with
  | @closing cl _ _ s₁ hpc hclose | @closed cl _ s₁ hpc hclose =>
    obtain rfl : s₁ = (s.closeStep cl).1 := by rw [hclose]
    simp [closeStep_holds]
  | rearm => simp [hj, State.ctlMod]
  | rearmClose => simp [hj]
  | _ => rfl

theorem step_works {a : Action} (hown : Owns cfg s) (hpos : s.Positive)
    (h : s.HandedOff) (hok : handoffOk s a = true) (hsend : needSendOk s a = true)
    (hstep : step cfg s a = some s') (hheld : ∀ i c, s.holds i c = true → s.Works i c)
    (hc : s'.holds i c = true) : s'.Works i c := by
  revert hstep
  fun_cases step cfg s a <;> intro hstep <;> try cases hstep
  · exact (mainStep_cases hstep).keeps h (hheld i c) hc
  · next j inp _ =>
    have hj := workerStep_cases hstep
    by_cases hi : i = j
    · subst hi
      exact hj.keeps hown hpos h hok (hheld i c) hc
    · obtain ⟨hmain, hslot⟩ := hj.frame
      rw [hj.holds_other hi] at hc
      simpa only [State.Works, State.pending, hmain, hslot i hi] using hheld i c hc
  · revert hc
    split <;> exact hheld i c
  · exact hheld i c hc
  · simp [needSendOk] at hsend
  · exact hheld i c hc
  · exact hheld i c hc

-- ════════════════════════════════════════════════════════════════════════
-- Every connection is at some place
-- ════════════════════════════════════════════════════════════════════════

theorem Covers.init (cfg : Config) : Covers cfg (.init cfg) := by
  by_cases hl : cfg.listening = true
  · constructor <;> simp +contextual [State.init, hl, MainPc.joins, State.ListenCovered,
      Function.update_apply]
  · have hat : (State.init cfg).At 0 .armed := by
      simp [State.init, hl, State.At, Function.update_apply]
    refine ⟨fun fd c hc => ⟨.armed, ?_⟩, ?_, ?_, ?_, ?_⟩
    · obtain ⟨-, rfl⟩ : fd = cfg.sockmain ∧ 0 = c := by
        simpa [State.init, hl, Function.update_apply] using hc
      exact hat
    all_goals simp +contextual [State.init, hl, MainPc.joins, Function.update_apply]

/-- A step that takes no connection from its place without giving it another one. -/
theorem Covers.frame (h : Covers cfg s)
    (hconnect : ∀ fd c, s'.connect fd = some c → s.connect fd = some c) (hsd : s'.sd = s.sd)
    (hjoins : ∀ c, s'.main.joins = some c → s.main.joins = some c)
    (hnone : ∀ fd, s.reg fd = none → s'.reg fd = none)
    (hreg : ∀ fd, s'.connect fd ≠ none ∨ cfg.listening = true ∧ fd = cfg.sockmain →
      (s.reg fd).isSome → (s'.reg fd).isSome)
    (hat : ∀ fd c k, s'.connect fd = some c → s.At c k →
      ∃ k', s'.At c k' ∧ (k = .joining → k' = .joining))
    (hlisten : s'.mainRun = true → s.mainRun = true ∧
      (cfg.listening = true → s.ListenCovered cfg → s'.ListenCovered cfg)) : Covers cfg s' where
  covered fd c hc := by
    obtain ⟨k, hk⟩ := h.covered fd c (hconnect fd c hc)
    obtain ⟨k', hk', -⟩ := hat fd c k hc hk
    exact ⟨k', hk'⟩
  registered fd c hc hjoin := by
    refine hreg fd (.inl (by simp [hc])) (h.registered fd c (hconnect fd c hc) fun hold => hjoin ?_)
    obtain ⟨k', hk', hkeep⟩ := hat fd c .joining hc hold
    obtain rfl := hkeep rfl
    exact hk'
  joining c hc := by rw [hsd]; exact hnone _ (h.joining c (hjoins c hc))
  listen hl hrun := (hlisten hrun).2 hl (h.listen hl (hlisten hrun).1)
  listenReg hl := hreg _ (.inr ⟨hl, rfl⟩) (h.listenReg hl)

/-- The event that is fetched for a listed connection names its descriptor. -/
theorem Owns.fetched_fd (hown : Owns cfg s) {fd : Fd} {c : Conn} {e : Event}
    (hc : s.connect fd = some c) (he : e ∈ s.fetched) (hsrc : e.src = .conn c) : e.fd = fd :=
  hown.fd_eq (hsrc ▸ hown.source e he) (hown.entry fd c hc)

/-- A step that touches no entry and no registration. -/
theorem Covers.quiet (h : Covers cfg s) (hown : Owns cfg s) (hconnect : s'.connect = s.connect)
    (hreg : s'.reg = s.reg) (howner : s'.owner = s.owner) (hsd : s'.sd = s.sd)
    (hjoins : s'.main.joins = s.main.joins) (hholds : s'.holds = s.holds)
    (hclosing : ∀ j cl c, (s.slot j).pc = .closing cl c → (s'.slot j).pc = .closing cl c)
    (hqueued : ∀ e ∈ s.fetched, s.connect e.fd ≠ none → e ∈ s'.fetched)
    (hlisten : s'.mainRun = true → s.mainRun = true ∧ (cfg.listening = true →
      ((∃ e ∈ s.fetched, e.src = .listen) ∨ s.main.accepting = true) →
      (∃ e ∈ s'.fetched, e.src = .listen) ∨ s'.main.accepting = true)) : Covers cfg s' := by
  refine h.frame (by simp [hconnect]) hsd (by simp [hjoins]) (by simp [hreg])
    (by simp [hreg]) ?_ ?_
  · intro fd c k hc hk
    refine ⟨k, ?_, id⟩
    rw [hconnect] at hc
    cases k with
    | joining => exact hjoins.trans hk
    | armed => simpa only [State.At, hreg, howner] using hk
    | queued =>
      obtain ⟨e, he, hsrc⟩ := hk
      refine ⟨e, hqueued e he ?_, hsrc⟩
      simp [hown.fetched_fd hc he hsrc, hc]
    | held j => simpa only [State.At, hholds] using hk
    | closing j =>
      obtain ⟨cl, hcl⟩ := hk
      exact ⟨cl, hclosing j cl c hcl⟩
  · intro hrun
    refine ⟨(hlisten hrun).1, fun hl hcov => ?_⟩
    rcases hcov with harm | hrest
    · exact .inl (by rw [hreg]; exact harm)
    · exact .inr ((hlisten hrun).2 hl hrest)

theorem Covers.deliverOne (h : Covers cfg s) (hown : Owns cfg s) {ev : Fd × Events}
    (hpc : s.main = .loop) (hone : s.deliverOne cfg ev = some s') : Covers cfg s' := by
  obtain ⟨r, src, hreg, howner, harmed, -, rfl⟩ := deliverOne_eq hone
  have hfetched : ∀ e ∈ s.fetched, e ∈ ({ s.setReg ev.1 (some { r with armed := false }) with
      batch := ⟨ev.1, ev.2, src⟩ :: s.batch } : State).fetched := by
    intro e he
    simp only [State.fetched, hpc, MainPc.inHand, List.nil_append, State.setReg] at he ⊢
    exact List.mem_cons_of_mem _ he
  have hnew : ⟨ev.1, ev.2, src⟩ ∈ ({ s.setReg ev.1 (some { r with armed := false }) with
      batch := ⟨ev.1, ev.2, src⟩ :: s.batch } : State).fetched := by
    simp [State.fetched]
  -- the registration of another descriptor is untouched
  have harm : ∀ {fd mask}, s.reg fd = some ⟨mask, true⟩ → fd ≠ ev.1 →
      Function.update s.reg ev.1 (some { r with armed := false }) fd = some ⟨mask, true⟩ := by
    intro fd mask hfd hne
    simpa [hne] using hfd
  refine h.frame (fun _ _ hc => hc) rfl (fun _ hc => hc) ?_ ?_ ?_ ?_
  · intro fd hnone
    have hne : fd ≠ ev.1 := by
      rintro rfl
      simp [hreg] at hnone
    simpa [hne] using hnone
  · intro fd _ hfd
    by_cases hne : fd = ev.1
    · simp [hne]
    · simpa [hne] using hfd
  · intro fd c k hc hk
    cases k with
    | joining => exact ⟨.joining, hk, id⟩
    | armed =>
      obtain ⟨fd', mask, hr, ho⟩ := hk
      by_cases hne : fd' = ev.1
      · subst hne
        exact ⟨.queued, ⟨_, hnew, Option.some.inj (howner.symm.trans ho)⟩, by simp⟩
      · exact ⟨.armed, ⟨fd', mask, harm hr hne, ho⟩, id⟩
    | queued =>
      obtain ⟨e, he, hsrc⟩ := hk
      exact ⟨.queued, ⟨e, hfetched e he, hsrc⟩, id⟩
    | held j => exact ⟨.held j, hk, id⟩
    | closing j => exact ⟨.closing j, hk, id⟩
  · refine fun hrun => ⟨hrun, fun hl hcov => ?_⟩
    rcases hcov with ⟨mask, hr⟩ | ⟨e, he, hsrc⟩ | hacc
    · by_cases hne : cfg.sockmain = ev.1
      · have hlisten := (hown.listen cfg.sockmain).mpr ⟨rfl, hl⟩
        rw [hne, howner] at hlisten
        exact .inr (.inl ⟨_, hnew, Option.some.inj hlisten⟩)
      · exact .inl ⟨mask, harm hr hne⟩
    · exact .inr (.inl ⟨e, hfetched e he, hsrc⟩)
    · exact .inr (.inr hacc)

theorem Covers.deliver (h : Covers cfg s) (hown : Owns cfg s) {evs : List (Fd × Events)}
    {s₁ : State} (hpc : s.main = .loop) (hdel : s.deliver cfg evs = some s₁) :
    Covers cfg s₁ ∧ Owns cfg s₁ ∧ s₁.main = .loop := by
  refine deliver_invariant (P := fun t => Covers cfg t ∧ Owns cfg t ∧ t.main = .loop) ?_
    ⟨h, hown, hpc⟩ hdel
  rintro t ev t' - ⟨ht, htown, htpc⟩ hone
  refine ⟨ht.deliverOne htown htpc hone, htown.deliverOne htpc hone, ?_⟩
  obtain ⟨r, src, -, -, -, -, rfl⟩ := deliverOne_eq hone
  exact htpc

theorem Covers.takeEvent (h : Covers cfg s) (hown : Owns cfg s) (hpc : s.main = .loop) :
    Covers cfg s.takeEvent := by
  rcases takeEvent_cases s with ⟨-, ht⟩ | ⟨e, rest, hbatch, ht⟩
  · rwa [ht]
  · rw [ht]
    have hfetched : ({ s with main := .event e, batch := rest } : State).fetched = s.fetched := by
      simp [State.fetched, hpc, hbatch, MainPc.inHand]
    refine h.quiet hown rfl rfl rfl rfl (by simp [hpc, MainPc.joins]) rfl (fun _ _ _ hcl => hcl)
      (fun e he _ => hfetched ▸ he) fun hrun => ⟨hrun, fun _ hcov => ?_⟩
    rw [hfetched]
    exact hcov.imp_right fun hacc => by simp [hpc, MainPc.accepting] at hacc

/-- A connection comes up. It is not listed yet. -/
theorem Covers.accept (h : Covers cfg s) (hown : Owns cfg s) {e : Event} {fd : Fd}
    {sock : TstSocket} (hpc : s.main = .event e) (hfd : e.fd = cfg.sockmain)
    (hlisten : cfg.listening = true) (hfree : s.owner fd = none) (hsock : sock.sd = fd) :
    Covers cfg { (s.setOwner fd (some (.conn s.fresh))).setSock s.fresh sock with
      fresh := s.fresh + 1
      main := .accepted s.fresh } := by
  have hsrc : e.src = .listen := by
    have hsource := hown.source e (by simp [State.fetched, hpc, MainPc.inHand])
    rw [hfd, (hown.listen _).mpr ⟨rfl, hlisten⟩] at hsource
    exact (Option.some.inj hsource).symm
  have hjoins : s.main.joins = none := by simp [hpc, MainPc.joins]
  have hreg : s.reg fd = none := by
    by_contra hr
    exact hown.reg fd (Option.isSome_iff_ne_none.mpr hr) hfree
  refine ⟨?_, ?_, ?_, fun _ _ => .inr (.inr rfl), h.listenReg⟩
  · intro fd' c hc
    obtain ⟨k, hk⟩ := h.covered fd' c hc
    cases k with
    | joining => simp [State.At, hjoins] at hk
    | armed =>
      obtain ⟨fd₁, mask, hr, ho⟩ := hk
      have hne : fd₁ ≠ fd := by
        rintro rfl
        simp [hfree] at ho
      exact ⟨.armed, fd₁, mask, hr, by simpa [hne] using ho⟩
    | queued =>
      obtain ⟨e', he, hsrc'⟩ := hk
      rcases (by simpa [State.fetched, hpc, MainPc.inHand] using he : e' = e ∨ e' ∈ s.batch) with
        rfl | he
      · simp [hsrc] at hsrc'
      · exact ⟨.queued, e', List.mem_append_right _ he, hsrc'⟩
    | held j => exact ⟨.held j, hk⟩
    | closing j => exact ⟨.closing j, hk⟩
  · intro fd' c hc _
    exact h.registered fd' c hc (by simp [hjoins])
  · intro c hc
    obtain rfl : s.fresh = c := by simpa [MainPc.joins] using hc
    simpa [State.sd, hsock] using hreg

/-- A connection is entered in `m_connect`. -/
theorem Covers.add (h : Covers cfg s) {c : Conn} {sock : TstSocket} (hpc : s.main = .add c)
    (hsock : sock.sd = s.sd c) :
    Covers cfg { (s.setSock c sock).setConnect (s.sd c) (some c) with main := .fconnected c } := by
  have hsd := setSock_sd hsock
  have hjoins : s.main.joins = some c := by simp [hpc, MainPc.joins]
  refine ⟨?_, ?_, ?_, fun _ _ => .inr (.inr rfl), h.listenReg⟩
  · intro fd c' hc
    by_cases hfd : fd = s.sd c
    · obtain rfl : c = c' := by simpa [hfd] using hc
      exact ⟨.joining, rfl⟩
    · obtain ⟨k, hk⟩ := h.covered fd c' (by simpa [hfd] using hc)
      refine ⟨k, ?_⟩
      cases k with
      | joining => exact hjoins.symm.trans hk
      | queued =>
        obtain ⟨e, he, hsrc⟩ := hk
        exact ⟨e, by simpa [State.fetched, hpc, MainPc.inHand] using he, hsrc⟩
      | armed | held | closing => exact hk
  · intro fd c' hc hjoin
    by_cases hfd : fd = s.sd c
    · obtain rfl : c = c' := by simpa [hfd] using hc
      exact absurd rfl hjoin
    · exact h.registered fd c' (by simpa [hfd] using hc) (hjoins ▸ hjoin)
  · intro c' hc
    obtain rfl : c = c' := by simpa [MainPc.joins] using hc
    exact (congrArg s.reg (congrFun hsd c)).trans (h.joining c hjoins)

/-- A connection is registered. -/
theorem Covers.register (h : Covers cfg s) (hown : Owns cfg s) {c : Conn} {next : TstStat}
    {mask : Events} (hpc : s.main = .register c next) :
    Covers cfg { s.ctlAdd (s.sd c) mask true with main := .rearmListen } := by
  have hjoins : s.main.joins = some c := by simp [hpc, MainPc.joins]
  have hlive := hown.live c .joining hjoins
  have hreg : ({ s.ctlAdd (s.sd c) mask true with main := .rearmListen } : State).reg =
      Function.update s.reg (s.sd c) (some ⟨mask, true⟩) := by
    simp [State.ctlAdd, hlive, h.joining c hjoins]
  have hkeep : ∀ {fd r}, s.reg fd = some r →
      Function.update s.reg (s.sd c) (some ⟨mask, true⟩) fd = some r := by
    intro fd r hr
    have hne : fd ≠ s.sd c := by
      rintro rfl
      simp [h.joining c hjoins] at hr
    simpa [hne] using hr
  refine ⟨?_, ?_, ?_, fun _ _ => .inr (.inr rfl), ?_⟩
  · intro fd c' hc
    obtain ⟨k, hk⟩ := h.covered fd c' hc
    cases k with
    | joining =>
      obtain rfl : c = c' := Option.some.inj (hjoins.symm.trans hk)
      exact ⟨.armed, s.sd c, mask, (congrFun hreg _).trans (by simp), hlive⟩
    | armed =>
      obtain ⟨fd', m, hr, ho⟩ := hk
      exact ⟨.armed, fd', m, by rw [hreg]; exact hkeep hr, ho⟩
    | queued =>
      obtain ⟨e, he, hsrc⟩ := hk
      have he : e ∈ s.batch := by simpa [State.fetched, hpc, MainPc.inHand] using he
      exact ⟨.queued, e, List.mem_append_right _ he, hsrc⟩
    | held j => exact ⟨.held j, hk⟩
    | closing j => exact ⟨.closing j, hk⟩
  · intro fd c' hc _
    rw [hreg]
    by_cases hfd : fd = s.sd c
    · simp [hfd]
    · have hne : s.main.joins ≠ some c' := by
        rw [hjoins]
        rintro heq
        obtain rfl : c = c' := Option.some.inj heq
        exact hfd (hown.fd_eq (hown.entry fd c hc) hlive)
      simpa [hfd] using h.registered fd c' hc hne
  · simp [MainPc.joins]
  · intro hl
    obtain ⟨r, hr⟩ := Option.isSome_iff_exists.mp (h.listenReg hl)
    rw [hreg, hkeep hr]
    rfl

theorem ctlMod_isSome (s : State) (fd fd' : Fd) (mask : Events) (ok : Bool) :
    ((s.ctlMod fd mask ok).reg fd').isSome = (s.reg fd').isSome := by
  by_cases hp : ok = true ∧ (s.reg fd).isSome = true
  · by_cases hfd : fd' = fd
    · simp [State.ctlMod, hfd, hp.1, hp.2]
    · simp [State.ctlMod, hfd, hp.1, hp.2]
  · simp only [State.ctlMod, if_neg hp]

/-- What is armed stays armed, with a new mask perhaps. -/
theorem ctlMod_armed {fd fd' : Fd} {mask mask' : Events} {ok : Bool}
    (h : s.reg fd' = some ⟨mask', true⟩) :
    ∃ m, (s.ctlMod fd mask ok).reg fd' = some ⟨m, true⟩ := by
  by_cases hp : ok = true ∧ (s.reg fd).isSome = true
  · by_cases hfd : fd' = fd
    · exact ⟨mask, by simp [State.ctlMod, hfd, hp.1, hp.2]⟩
    · exact ⟨mask', by simpa [State.ctlMod, hfd, hp.1, hp.2] using h⟩
  · exact ⟨mask', by simpa only [State.ctlMod, if_neg hp] using h⟩

theorem Covers.ctlMod (h : Covers cfg s) (fd : Fd) (mask : Events) (ok : Bool) :
    Covers cfg (s.ctlMod fd mask ok) := by
  refine h.frame (fun _ _ hc => hc) rfl (fun _ hc => hc) (fun fd' hnone => ?_)
    (fun fd' _ hr => (ctlMod_isSome ..).trans hr) ?_ ?_
  · rw [← Option.not_isSome_iff_eq_none, ctlMod_isSome, hnone]
    simp
  · intro fd' c k _ hk
    refine ⟨k, ?_, id⟩
    cases k with
    | armed =>
      obtain ⟨fd₁, m, hr, ho⟩ := hk
      have harmed : ∃ m', (s.ctlMod fd mask ok).reg fd₁ = some ⟨m', true⟩ := ctlMod_armed hr
      obtain ⟨m', hr'⟩ := harmed
      exact ⟨fd₁, m', hr', ho⟩
    | joining | queued | held | closing => exact hk
  · intro hrun
    refine ⟨hrun, fun _ hcov => ?_⟩
    rcases hcov with ⟨m, hr⟩ | hrest
    · exact .inl (ctlMod_armed hr)
    · exact .inr hrest

/-- The listening socket is re-armed. -/
theorem Covers.rearmListen (h : Covers cfg s) (hpc : s.main = .rearmListen)
    (hlisten : cfg.listening = true) :
    Covers cfg { s.ctlMod cfg.sockmain .base true with main := .loop } := by
  have h₁ := h.ctlMod cfg.sockmain .base true
  have hreg : (s.ctlMod cfg.sockmain .base true).reg cfg.sockmain = some ⟨.base, true⟩ := by
    simp [State.ctlMod, h.listenReg hlisten]
  refine h₁.frame (fun _ _ hc => hc) rfl ?_ (fun _ hr => hr) (fun _ _ hr => hr)
    ?_ fun hrun => ⟨hrun, fun _ _ => .inl ⟨_, hreg⟩⟩
  · simp [MainPc.joins]
  · intro fd c k _ hk
    refine ⟨k, ?_, id⟩
    cases k with
    | joining => simp [State.At, State.ctlMod, hpc, MainPc.joins] at hk
    | queued =>
      obtain ⟨e, he, hsrc⟩ := hk
      exact ⟨e, by simpa [State.fetched, State.ctlMod, hpc, MainPc.inHand] using he, hsrc⟩
    | armed | held | closing => exact hk

/-- An event is dispatched to worker `i`. -/
theorem Covers.setSocket (h : Covers cfg s) {d : Dispatch} {sock : TstSocket}
    (hpc : s.main = .setSocket d i) (hsrc : d.ev.src = .conn d.conn)
    (hsock : sock.sd = s.sd d.conn) :
    Covers cfg { ((s.setSock d.conn sock).setSlot i
        { s.slot i with tstSocket := some d.conn, lock := none }).setHolds i d.conn true with
      main := .loop } := by
  have hfetched : s.fetched = d.ev :: s.batch := by simp [State.fetched, hpc, MainPc.inHand]
  refine h.frame (fun _ _ hc => hc) (setSock_sd hsock) (by simp [MainPc.joins])
    (fun _ hr => hr) (fun _ _ hr => hr) ?_ fun hrun => ⟨hrun, fun _ hcov => ?_⟩
  · intro fd c k _ hk
    cases k with
    | joining => simp [State.At, hpc, MainPc.joins] at hk
    | armed => exact ⟨.armed, hk, id⟩
    | queued =>
      obtain ⟨e, he, hsrc'⟩ := hk
      rw [hfetched] at he
      rcases List.mem_cons.mp he with rfl | he
      · obtain rfl : d.conn = c := by simpa using hsrc.symm.trans hsrc'
        exact ⟨.held i, by simp [State.At], by simp⟩
      · exact ⟨.queued, ⟨e, List.mem_append_right _ he, hsrc'⟩, id⟩
    | held j =>
      refine ⟨.held j, ?_, id⟩
      by_cases hj : j = i
      · subst hj
        by_cases hc : c = d.conn
        · simp [State.At, hc]
        · simpa [State.At, hc] using hk
      · simpa [State.At, hj] using hk
    | closing j =>
      obtain ⟨cl, hcl⟩ := hk
      refine ⟨.closing j, ⟨cl, ?_⟩, id⟩
      by_cases hj : j = i
      · subst hj
        simpa using hcl
      · simpa [hj] using hcl
  · rcases hcov with harm | ⟨e, he, hsrc'⟩ | hacc
    · exact .inl harm
    · rw [hfetched] at he
      rcases List.mem_cons.mp he with rfl | he
      · simp [hsrc] at hsrc'
      · exact .inr (.inl ⟨e, List.mem_append_right _ he, hsrc'⟩)
    · simp [hpc, MainPc.accepting] at hacc

/-- Worker `i` begins to close the socket of its job. -/
theorem Covers.rearmClose (h : Covers cfg s) {c : Conn} {next : TstStat}
    (hpc : (s.slot i).pc = .rearm c next) :
    Covers cfg ((s.setHolds i c false).setSlot i
      { s.slot i with pc := .closing ⟨s.sd c, .erase⟩ c }) := by
  refine h.frame (fun _ _ hc => hc) rfl (fun _ hc => hc) (fun _ hr => hr)
    (fun _ _ hr => hr) ?_ fun hrun => ⟨hrun, fun _ hcov => hcov⟩
  intro fd c' k _ hk
  cases k with
  | held j =>
    by_cases hj : j = i
    · subst hj
      by_cases hc : c' = c
      · exact ⟨.closing j, ⟨⟨s.sd c, .erase⟩, by simp [hc]⟩, by simp⟩
      · exact ⟨.held j, by simpa [State.At, hc] using hk, id⟩
    · exact ⟨.held j, by simpa [State.At, hj] using hk, id⟩
  | closing j =>
    obtain ⟨cl, hcl⟩ := hk
    have hj : j ≠ i := by
      rintro rfl
      simp [hpc] at hcl
    exact ⟨.closing j, ⟨cl, by simpa [hj] using hcl⟩, id⟩
  | joining => exact ⟨.joining, hk, id⟩
  | armed => exact ⟨.armed, hk, id⟩
  | queued => exact ⟨.queued, hk, id⟩

/-- Worker `i` re-arms the socket of its job. -/
theorem Covers.rearm (h : Covers cfg s) (hown : Owns cfg s) {c : Conn} {next next' : TstStat}
    {mask : Events} (hpc : (s.slot i).pc = .rearm c next) :
    Covers cfg (((s.ctlMod (s.sd c) mask true).setHolds i c false).setSlot i
      { s.slot i with pc := .storeNext next' }) := by
  have hheld : s.At c (.held i) := (hown.slots i).working c (by simp [hpc, WorkerPc.working])
  have hlive := hown.live c _ hheld
  refine (h.ctlMod (s.sd c) mask true).frame (fun _ _ hc => hc) rfl
    (fun _ hc => hc) (fun _ hr => hr) (fun _ _ hr => hr) ?_ fun hrun => ⟨hrun, fun _ hcov => hcov⟩
  intro fd c' k hc' hk
  cases k with
  | held j =>
    by_cases hj : j = i
    · subst hj
      by_cases hc : c' = c
      · subst hc
        -- the socket is listed, so that the kernel knows it
        have hfd : fd = s.sd c' := hown.fd_eq (hown.entry fd c' hc') hlive
        have hreg : (s.reg (s.sd c')).isSome := by
          refine h.registered _ c' (hfd ▸ hc') fun hjoin => ?_
          cases hown.exclusive c' .joining _ hjoin hheld
        exact ⟨.armed, ⟨s.sd c', mask, by simp [State.ctlMod, hreg], hlive⟩, by simp⟩
      · exact ⟨.held j, by simpa [State.At, State.ctlMod, hc] using hk, id⟩
    · exact ⟨.held j, by simpa [State.At, State.ctlMod, hj] using hk, id⟩
  | closing j =>
    obtain ⟨cl, hcl⟩ := hk
    have hj : j ≠ i := by
      rintro rfl
      simp [State.ctlMod, hpc] at hcl
    exact ⟨.closing j, ⟨cl, by simpa [hj] using hcl⟩, id⟩
  | joining => exact ⟨.joining, hk, id⟩
  | armed => exact ⟨.armed, hk, id⟩
  | queued => exact ⟨.queued, hk, id⟩

/-- A step of a call of `closesocket`, after which the caller may be elsewhere. What it
loses is about the descriptor that is closed. -/
theorem Covers.closing (h : Covers cfg s) (hown : Owns cfg s) {cl : Closing}
    (hnone : cl.phase ≠ .erase → s.connect cl.sd = none)
    (hclient : s.owner cl.sd ≠ some .listen)
    (hconnect : s'.connect = (s.closeStep cl).1.connect)
    (howner : s'.owner = (s.closeStep cl).1.owner) (hreg : s'.reg = (s.closeStep cl).1.reg)
    (hsd : s'.sd = s.sd) (hholds : s'.holds = s.holds)
    (hjoins : ∀ c, s'.main.joins = some c → s.main.joins = some c)
    (hjoined : ∀ c, s.main.joins = some c → s.sd c ≠ cl.sd → s'.main.joins = some c)
    (hclosing : ∀ j cl₁ c, (s.slot j).pc = .closing cl₁ c → s.sd c ≠ cl.sd →
      (s'.slot j).pc = .closing cl₁ c)
    (hfetched : ∀ e ∈ s.fetched, e.fd ≠ cl.sd → e ∈ s'.fetched)
    (hrun : s'.mainRun = true → s.mainRun = true ∧
      (s.main.accepting = true → s'.main.accepting = true)) : Covers cfg s' := by
  have hgone : s'.connect cl.sd = none := by
    rw [hconnect]
    exact closeStep_connect hnone
  have hsub : ∀ fd c, s'.connect fd = some c → s.connect fd = some c ∧ fd ≠ cl.sd := by
    intro fd c hc
    have hne : fd ≠ cl.sd := by
      rintro rfl
      simp [hgone] at hc
    rw [hconnect, (closeStep_other hne).1] at hc
    exact ⟨hc, hne⟩
  have hmain : cfg.listening = true → cfg.sockmain ≠ cl.sd := by
    intro hl heq
    exact hclient (heq ▸ (hown.listen _).mpr ⟨rfl, hl⟩)
  refine h.frame (fun fd c hc => (hsub fd c hc).1) hsd hjoins (fun fd hr => ?_)
    (fun fd hfd hr => ?_) ?_ fun hmr => ⟨(hrun hmr).1, fun hl hcov => ?_⟩
  · rw [hreg]
    exact (closeStep_none cl fd).2.2 hr
  · have hne : fd ≠ cl.sd := by
      rcases hfd with hc | ⟨hl, rfl⟩
      · obtain ⟨c, hc⟩ := Option.ne_none_iff_exists'.mp hc
        exact (hsub fd c hc).2
      · exact hmain hl
    rwa [hreg, (closeStep_other hne).2.2]
  · intro fd c k hc hk
    obtain ⟨hold, hne⟩ := hsub fd c hc
    have hfd : s.sd c = fd := (hown.owner fd c (hown.entry fd c hold)).1
    refine ⟨k, ?_, id⟩
    cases k with
    | joining => exact hjoined c hk (hfd ▸ hne)
    | armed =>
      obtain ⟨fd', mask, hr, ho⟩ := hk
      obtain rfl := hown.fd_eq ho (hown.entry fd c hold)
      obtain ⟨-, ho', hr'⟩ := closeStep_other (s := s) hne
      exact ⟨fd', mask, by rw [hreg, hr', hr], by rw [howner, ho', ho]⟩
    | queued =>
      obtain ⟨e, he, hsrc⟩ := hk
      exact ⟨e, hfetched e he (hown.fetched_fd hold he hsrc ▸ hne), hsrc⟩
    | held j => simpa only [State.At, hholds] using hk
    | closing j =>
      obtain ⟨cl₁, hcl⟩ := hk
      exact ⟨cl₁, hclosing j cl₁ c hcl (hfd ▸ hne)⟩
  · rcases hcov with ⟨mask, hr⟩ | ⟨e, he, hsrc⟩ | hacc
    · exact .inl ⟨mask, by rw [hreg, (closeStep_other (hmain hl)).2.2, hr]⟩
    · refine .inr (.inl ⟨e, hfetched e he ?_, hsrc⟩)
      rw [((hown.listen e.fd).mp (hsrc ▸ hown.source e he)).1]
      exact hmain hl
    · exact .inr (.inr ((hrun hmr).2 hacc))

/-- A descriptor that `tst_main` closes is not the listening one. -/
theorem Owns.mainClosing_fd (hown : Owns cfg s) {cl : Closing} {after : AfterClose}
    (hpc : s.main = .closing cl after) :
    s.owner cl.sd ≠ some .listen ∧ (cl.phase ≠ .erase → s.connect cl.sd = none) := by
  have hmain := hown.main
  rw [hpc] at hmain
  cases after with
  | add c => exact hmain.elim
  | refused c =>
    have hlive := hown.live c .joining (by simp [State.At, hpc, MainPc.joins])
    refine ⟨?_, hmain.2.2⟩
    rw [hmain.2.1, hlive]
    simp
  | event e =>
    refine ⟨fun hlisten => hmain.2.1 ?_, hmain.2.2⟩
    rw [← hmain.1]
    exact (hown.listen _).mp hlisten

theorem mainStep_covers {inp : MainInput} (h : Covers cfg s) (hown : Owns cfg s)
    (hok : armedOk cfg s (.main inp) = true) (hstep : MainStep cfg s inp s') : Covers cfg s' := by
  have hmain := hown.main
  have hpcs := hstep.frame.1
  simp only [armedOk, Bool.and_eq_true] at hok
  replace hok := hok.2
  -- the event in hand of a socket that is not the listening one
  have hsource : ∀ e ∈ s.fetched, ¬ (e.fd = cfg.sockmain ∧ cfg.listening = true) →
      e.src ≠ .listen := by
    intro e he hclient hsrc
    exact hclient ((hown.listen e.fd).mp (hsrc ▸ hown.source e he))
  cases hstep with
  | epollWait hpc hrun hbatch hdel =>
    obtain ⟨h₁, hown₁, hpc₁⟩ := h.deliver hown hpc hdel
    exact h₁.takeEvent hown₁ hpc₁
  | @acceptError e r hpc hfd hlisten hin hr =>
    cases r with
    | none => simp at hok
    | some fd => simp [hr fd rfl] at hok
  | accept hpc hfd hlisten hpos hfree howner => exact h.accept hown hpc hfd hlisten hfree rfl
  | @listenOther e hpc hfd hlisten hin =>
    have hhang : e.events.hangup = true := by simpa [hpc, hfd, hlisten, hin] using hok
    refine h.quiet hown rfl rfl rfl rfl (by simp [hpc, MainPc.joins]) rfl (fun _ _ _ hcl => hcl)
      ?_ (by simp [hhang])
    intro e' he hc
    rcases (by simpa [State.fetched, hpc, MainPc.inHand] using he : e' = e ∨ e' ∈ s.batch) with
      rfl | he
    · obtain ⟨c, hc⟩ := Option.ne_none_iff_exists'.mp hc
      have howner := hown.entry _ c hc
      rw [hfd, (hown.listen _).mpr ⟨rfl, hlisten⟩] at howner
      cases howner
    · exact List.mem_append_right _ he
  | @lookupNull e n hpc hmap =>
    rw [hpc] at hmain
    have hfetched : s.fetched = e :: s.batch := by simp [State.fetched, hpc, MainPc.inHand]
    refine h.quiet hown rfl rfl rfl rfl (by simp [hpc, MainPc.joins]) rfl (fun _ _ _ hcl => hcl)
      ?_ fun hrun => ⟨hrun, fun _ hcov => ?_⟩
    · intro e' he hc
      rcases List.mem_cons.mp (hfetched ▸ he) with rfl | he
      · exact absurd hmap hc
      · exact List.mem_append_right _ he
    · rcases hcov with ⟨e', he, hsrc⟩ | hacc
      · rcases List.mem_cons.mp (hfetched ▸ he) with rfl | he
        · exact absurd hsrc (hsource e' (by simp [hfetched]) hmain)
        · exact .inl ⟨e', List.mem_append_right _ he, hsrc⟩
      · simp [hpc, MainPc.accepting] at hacc
  | remnant hpc hmap =>
    rw [hpc] at hmain
    simp [hmain.2] at hmap
  | add hpc => exact h.add hpc (by simp [State.sd])
  | register hpc =>
    obtain rfl := hok
    exact h.register hown hpc
  | rearmListen hpc =>
    obtain rfl := hok
    rw [hpc] at hmain
    exact h.rearmListen hpc hmain
  | setSocket hpc =>
    rw [hpc] at hmain
    exact h.setSocket hpc hmain (by simp [State.sd])
  | fconnected hpc | refuse hpc =>
    exact h.quiet hown rfl rfl rfl (setSock_sd rfl) (by simp [hpc, MainPc.joins]) rfl
      (fun _ _ _ hcl => hcl) (by simp +contextual [State.fetched, hpc, MainPc.inHand])
      fun hrun => ⟨hrun, fun _ _ => .inr rfl⟩
  | @closing cl cl' after s₁ hpc hclose =>
    obtain rfl : s₁ = (s.closeStep cl).1 := by rw [hclose]
    rw [hpc] at hmain
    obtain ⟨hclient, hnone⟩ := hown.mainClosing_fd hpc
    refine h.closing hown hnone hclient rfl rfl rfl (closeStep_sd s cl) (closeStep_holds s cl)
      ?_ ?_ (fun j _ _ hcl _ => (hpcs j).trans hcl) ?_ fun hrun => ⟨?_, ?_⟩
    · cases after <;> simp [hpc, MainPc.joins]
    · cases after <;> simp [hpc, MainPc.joins]
    · cases after <;> simp +contextual [State.fetched, hpc, MainPc.inHand]
    · simpa [closeStep_mainRun] using hrun
    · cases after <;> simp [hpc, MainPc.accepting]
  | @closed cl after s₁ hpc hclose =>
    obtain rfl : s₁ = (s.closeStep cl).1 := by rw [hclose]
    obtain ⟨hclient, hnone⟩ := hown.mainClosing_fd hpc
    rw [hpc] at hmain
    cases after with
    | add c => exact hmain.elim
    | refused c =>
      refine h.closing hown hnone hclient rfl rfl rfl (closeStep_sd s cl) (closeStep_holds s cl)
        ?_ ?_ (fun j _ _ hcl _ => (hpcs j).trans hcl) ?_ fun hrun => ⟨?_, ?_⟩
      · simp [State.afterClose, MainPc.joins]
      · simp [hpc, MainPc.joins, hmain.2.1]
      · simp +contextual [State.afterClose, State.fetched, hpc, MainPc.inHand]
      · simpa [State.afterClose, closeStep_mainRun] using hrun
      · simp [State.afterClose, MainPc.accepting]
    | event e =>
      have hstop : ∃ b pc, (s.closeStep cl).1.afterClose cfg (.event e) =
          { (s.closeStep cl).1 with mainRun := b, main := pc } ∧ pc.joins = none ∧
          pc.inHand = [] ∧ (b = true → s.mainRun = true) := by
        simp only [State.afterClose]
        split
        · exact ⟨false, .stopWork, rfl, rfl, rfl, by simp⟩
        · exact ⟨s.mainRun, .loop, by simp [closeStep_mainRun], rfl, rfl, id⟩
      obtain ⟨b, pc, hafter, hjoins, hhand, hrun⟩ := hstop
      rw [hafter] at hpcs ⊢
      refine h.closing hown hnone hclient rfl rfl rfl (closeStep_sd s cl) (closeStep_holds s cl)
        ?_ ?_ (fun j _ _ hcl _ => (hpcs j).trans hcl) ?_ fun hb => ⟨hrun hb, ?_⟩
      · simp [hjoins]
      · simp [hpc, MainPc.joins]
      · intro e' he hne
        rcases (by simpa [State.fetched, hpc, MainPc.inHand] using he : e' = e ∨ e' ∈ s.batch) with
          rfl | he
        · exact absurd hmain.1.symm hne
        · exact List.mem_append_right _ (by simpa using he)
      · simp [hpc, MainPc.accepting]
  | setRun hpc | exitScanFree hpc | exitStore hpc =>
    exact h.quiet hown rfl rfl rfl rfl (by simp [hpc, MainPc.joins]) rfl
      (fun j _ _ hcl => (hpcs j).trans hcl) (by simp +contextual [State.fetched, hpc, MainPc.inHand])
      fun hrun => ⟨hrun, by simp [State.fetched, hpc, MainPc.inHand, MainPc.accepting]⟩
  | _ =>
    refine h.quiet hown rfl rfl rfl rfl (by simp [*, MainPc.joins]) rfl (fun _ _ _ hcl => hcl)
      ?_ fun hrun => ⟨hrun, ?_⟩
    · simp +contextual [*, State.fetched, MainPc.inHand]
    · simp [*, State.fetched, MainPc.inHand, MainPc.accepting]

theorem workerStep_covers {inp : WorkerInput} (h : Covers cfg s) (hown : Owns cfg s)
    (hok : armedOk cfg s (.worker i inp) = true) (hstep : WorkerStep s i inp s') :
    Covers cfg s' := by
  simp only [armedOk, Bool.and_eq_true] at hok
  replace hok := hok.2
  -- a change of one slot whose worker is not closing a socket
  have hslot : ∀ {sl : Slot}, (∀ cl c, (s.slot i).pc ≠ .closing cl c) →
      ∀ j cl c, (s.slot j).pc = .closing cl c → ((s.setSlot i sl).slot j).pc = .closing cl c := by
    intro sl hpc j cl c hcl
    have hj : j ≠ i := by
      rintro rfl
      exact hpc cl c hcl
    simpa [hj] using hcl
  cases hstep with
  | own hsl =>
    refine h.quiet hown rfl rfl rfl rfl rfl rfl (hslot ?_) (fun _ he _ => he)
      fun hrun => ⟨hrun, fun _ hcov => hcov⟩
    intro cl c hcl
    cases hsl <;> simp_all
  | @job c k hpc =>
    exact h.quiet hown rfl rfl rfl (setSock_sd (by simp [State.sd])) rfl rfl
      (hslot (by simp [hpc])) (fun _ he _ => he) fun hrun => ⟨hrun, fun _ hcov => hcov⟩
  | call hpc =>
    exact h.quiet hown rfl rfl rfl (setSock_sd rfl) rfl rfl
      (hslot (by simp [hpc])) (fun _ he _ => he) fun hrun => ⟨hrun, fun _ hcov => hcov⟩
  | rearmClose hpc => exact h.rearmClose hpc
  | rearm hpc =>
    obtain rfl := hok
    exact h.rearm hown hpc
  | rearmSkip hpc =>
    exact h.quiet hown rfl rfl rfl rfl rfl rfl (hslot (by simp [hpc])) (fun _ he _ => he)
      fun hrun => ⟨hrun, fun _ hcov => hcov⟩
  | @closing cl cl' c s₁ hpc hclose | @closed cl c s₁ hpc hclose =>
    obtain rfl : s₁ = (s.closeStep cl).1 := by rw [hclose]
    obtain ⟨hsd, hnone⟩ := (hown.slots i).closing cl c hpc
    have hlive := hown.live c (.closing i) ⟨cl, hpc⟩
    refine h.closing hown hnone (by simp [hsd, hlive]) rfl rfl rfl (closeStep_sd s cl)
      (closeStep_holds s cl) ?_ ?_ ?_ ?_ ?_
    · simp
    · simp +contextual
    · intro j cl₁ c' hcl hne
      have hj : j ≠ i := by
        rintro rfl
        obtain ⟨-, rfl⟩ : cl = cl₁ ∧ c = c' := by simpa using hpc.symm.trans hcl
        exact hne hsd.symm
      simpa [hj] using hcl
    · exact fun e he _ => by simpa [State.fetched] using he
    · exact fun hrun => ⟨by simpa [closeStep_mainRun] using hrun, by simp⟩

theorem step_covers {a : Action} (h : Covers cfg s) (hown : Owns cfg s)
    (hok : armedOk cfg s a = true) (hstep : step cfg s a = some s') : Covers cfg s' := by
  have hsend : needSendOk s a = true := by
    simp only [armedOk, poolOk, Bool.and_eq_true] at hok
    exact hok.1.1
  revert hstep
  fun_cases step cfg s a <;> intro hstep <;> try cases hstep
  · exact mainStep_covers h hown hok (mainStep_cases hstep)
  · exact workerStep_covers h hown hok (workerStep_cases hstep)
  · split
    · exact h.ctlMod _ _ _
    · exact h
  · simp [needSendOk] at hsend
  · simp [needSendOk] at hsend
  · exact h.quiet hown rfl rfl rfl (setSock_sd rfl) rfl rfl (fun _ _ _ hcl => hcl)
      (fun _ he _ => he) fun hrun => ⟨hrun, fun _ hcov => hcov⟩
  · exact h.quiet hown rfl rfl rfl rfl rfl rfl (fun _ _ _ hcl => hcl)
      (fun _ he _ => he) (by simp)

/-- What an execution under `poolOk` keeps. -/
structure Sound (cfg : Config) (s : State) : Prop where
  owns : Owns cfg s
  handedOff : s.HandedOff
  positive : s.Positive

theorem Sound.init (cfg : Config) : Sound cfg (.init cfg) :=
  ⟨.init cfg, handedOff_init cfg, positive_init cfg⟩

theorem step_sound {a : Action} (h : Sound cfg s) (hok : poolOk s a = true)
    (hstep : step cfg s a = some s') : Sound cfg s' := by
  obtain ⟨hsend, hhand⟩ : needSendOk s a = true ∧ handoffOk s a = true := by
    simpa only [poolOk, Bool.and_eq_true] using hok
  exact ⟨step_owns h.owns hsend hstep, fun i => (step_handoff h.handedOff hhand hstep i).1,
    step_positive h.positive hstep⟩

/-- What an execution under `armedOk` keeps. -/
structure Alive (cfg : Config) (s : State) : Prop extends Sound cfg s where
  covers : Covers cfg s
  works : ∀ i c, s.holds i c = true → s.Works i c

theorem Alive.init (cfg : Config) : Alive cfg (.init cfg) where
  toSound := .init cfg
  covers := .init cfg
  works i c hc := by
    have hnone : (State.init cfg).holds i c = false := by
      simp only [State.init]
      split <;> rfl
    simp [hnone] at hc

theorem step_alive {a : Action} (h : Alive cfg s) (hok : armedOk cfg s a = true)
    (hstep : step cfg s a = some s') : Alive cfg s' := by
  obtain ⟨hpool, -⟩ : poolOk s a = true ∧ _ := by
    simpa only [armedOk, Bool.and_eq_true] using hok
  obtain ⟨hsend, hhand⟩ : needSendOk s a = true ∧ handoffOk s a = true := by
    simpa only [poolOk, Bool.and_eq_true] using hpool
  exact ⟨step_sound h.toSound hpool hstep, step_covers h.covers h.owns hok hstep,
    fun i c => step_works h.owns h.positive h.handedOff hhand hsend hstep (h.works)⟩

end Invariant

/-- While the main loop runs, the listening socket and every listed connection are armed or
on the way to it, in every run in which each event of the listening socket brings a
connection or the end, and no job is lost. -/
theorem no_socket_disarmed (cfg : Config) (as : List Action) (s : State)
    (h : Exec (step cfg) (fun s a => armedOk cfg s a = true) (.init cfg) as s)
    (hrun : s.mainRun = true) :
    (cfg.listening = true → s.ListenCovered cfg) ∧
      ∀ fd c, s.connect fd = some c →
        (∃ mask, s.reg fd = some ⟨mask, true⟩) ∨ (∃ e ∈ s.fetched, e.src = .conn c) ∨
          (∃ i, s.Assigned i c) ∨ s.main.joins = some c := by
  have hinv : Alive cfg s :=
    h.invariant (fun _ _ _ hok hs hstep => step_alive hs hok hstep) (.init cfg)
  refine ⟨fun hl => hinv.covers.listen hl hrun, fun fd c hc => ?_⟩
  obtain ⟨k, hk⟩ := hinv.covers.covered fd c hc
  cases k with
  | joining => exact .inr (.inr (.inr hk))
  | armed =>
    obtain ⟨fd', mask, hr, ho⟩ := hk
    obtain rfl := hinv.owns.fd_eq ho (hinv.owns.entry fd c hc)
    exact .inl ⟨mask, hr⟩
  | queued => exact .inr (.inl hk)
  | held i => exact .inr (.inr (.inl ⟨i, .inl (hinv.works i c hk)⟩))
  | closing i => exact .inr (.inr (.inl ⟨i, .inr hk⟩))

theorem no_socket_disarmed_job :
    ∃ s, Exec (step .server) (fun s a => armedOk .server s a = true) (.init .server)
        (acceptRun 5 .suspend ++ assignRun 5 { epollin := true } ++ jobRun 0 .suspend) s ∧
      s.mainRun = true ∧ s.connect 5 = some 0 ∧
      (Config.server.listening = true → s.ListenCovered .server) ∧
      ∀ fd c, s.connect fd = some c →
        (∃ mask, s.reg fd = some ⟨mask, true⟩) ∨ (∃ e ∈ s.fetched, e.src = .conn c) ∨
          (∃ i, s.Assigned i c) ∨ s.main.joins = some c := by
  have hrun : (check (step .server) (fun s a => armedOk .server s a = true) (.init .server)
      (acceptRun 5 .suspend ++ assignRun 5 { epollin := true } ++ jobRun 0 .suspend)).any
      (fun s => s.mainRun && decide (s.connect 5 = some 0)) = true := by decide
  obtain ⟨s, hexec, hs⟩ := Exec.exists_of_check hrun
  obtain ⟨hmain, hc⟩ : s.mainRun = true ∧ s.connect 5 = some 0 := by simpa using hs
  exact ⟨s, hexec, hmain, hc, no_socket_disarmed .server _ s hexec hmain⟩

/-- `accept` fails once. The listening socket is not armed again, and no event of it is
left. -/
theorem accept_error_disarms :
    ∃ s, run (step .server) (.init .server)
        [.main (.epollWait [(3, { epollin := true })]), .main (.accept none)] = some s ∧
      s.mainRun = true ∧ s.main = .loop ∧ s.fetched = [] ∧
      s.reg 3 = some ⟨.base, false⟩ ∧ ¬ s.ListenCovered .server := by
  have hnot : ∀ s : State, s.reg 3 = some ⟨.base, false⟩ → s.fetched = [] → s.main = .loop →
      ¬ s.ListenCovered .server := by
    rintro s hreg hfetched hmain (⟨mask, hr⟩ | ⟨e, he, -⟩ | hacc)
    · simp [Config.server, hreg] at hr
    · simp [hfetched] at he
    · simp [hmain, MainPc.accepting] at hacc
  exact ⟨_, rfl, rfl, rfl, rfl, rfl, hnot _ rfl rfl rfl⟩

end Tst.Pool
