import Tst.Pool.Armed

/-!
# Pending output is not forgotten

A socket has one registration for both directions. While bytes wait in its send buffer,
the registration has to ask for `EPOLLOUT`, or an output event has to be on its way
through `tst_main` and a worker.

## Main definitions

- `State.Unsent` — the connection is open and has bytes to send
- `State.OutCovered` — the bytes are on their way to be sent
- `outputOk` — no input event of the connection is fetched

## Main results

- `output_not_forgotten` — under `outputOk` the output stays covered
- `input_forgets_output` — in general it does not
-/

namespace Tst.Pool

open Execution

/-- The descriptor that `tst_main` is closing. -/
def MainPc.closes : MainPc → Option Fd
  | .closing cl _ => some cl.sd
  | _ => none

/-- The connection has bytes to send: it is listed, no end of it has been reported,
`tst_main` is not closing it, and `com_len < req_len` in its send buffer. -/
structure State.Unsent (s : State) (c : Conn) : Prop where
  listed : s.connect (s.sd c) = some c
  alive : ∀ e ∈ s.fetched, e.src = .conn c → e.events.hangup = false
  kept : s.main.closes ≠ some (s.sd c)
  pending : ∃ d ∈ (s.sock c).send, d.Pending

instance (s : State) (c : Conn) : Decidable (s.Unsent c) :=
  decidable_of_iff
    (s.connect (s.sd c) = some c ∧ (∀ e ∈ s.fetched, e.src = .conn c → e.events.hangup = false) ∧
      s.main.closes ≠ some (s.sd c) ∧ ∃ d ∈ (s.sock c).send, d.Pending)
    ⟨fun ⟨h₁, h₂, h₃, h₄⟩ => ⟨h₁, h₂, h₃, h₄⟩, fun h => ⟨h.1, h.2, h.3, h.4⟩⟩

/-- Worker `i` will re-arm the connection with `EPOLLOUT`: an output job is assigned to it
or begun, or its job has ended with `tst_send`. -/
inductive State.Sending (s : State) (i : Nat) (c : Conn) : Prop
  | assigned (hview : s.main.view i = .away) (hin : (s.slot i).pc.inJob = false)
    (hstat : (s.slot i).stat = .run) (hsocket : (s.slot i).tstSocket = some c)
    (hout : (s.sock c).events.takesOut = true)
  | job (hpc : (s.slot i).pc = .job c) (hout : (s.sock c).events.takesOut = true)
  | ending (hpc : (s.slot i).pc = .lockEnd c .send ∨ (s.slot i).pc = .rearm c .send)

inductive State.OutCovered (s : State) (c : Conn) : Prop
  | armed {mask : Events} (hreg : s.reg (s.sd c) = some ⟨mask, true⟩)
    (hmask : mask.epollout = true)
  | fetched {e : Event} (he : e ∈ s.fetched) (hsrc : e.src = .conn c)
    (hout : e.events.takesOut = true)
  | sending {i : Nat} (h : s.Sending i c)

/-- The step asks for `EPOLLOUT` for the connection, and `epoll_ctl` succeeds. -/
def State.requests (s : State) (c : Conn) : Action → Bool
  | .main (.ctl ok) => ok && s.main = .register c .send && s.reg (s.sd c) = none
  | .worker i (.ctl ok) => ok && (s.slot i).pc = .rearm c .send && (s.reg (s.sd c)).isSome
  | .needSend sd ok => ok && s.mainRun && sd = s.sd c && (s.reg sd).isSome
  | _ => false

/-- Besides what `poolOk` asks for, no event with input bits is fetched for the connection, except with its end,
and the `epoll_ctl` calls of the workers succeed. -/
def outputOk (c : Conn) (s : State) (a : Action) : Bool :=
  poolOk s a &&
    match a with
    | .main (.epollWait evs) =>
      evs.all fun ev => s.owner ev.1 ≠ some (.conn c) || !ev.2.input || ev.2.hangup
    | .worker _ (.ctl ok) => ok
    | _ => true

section Invariant

variable {cfg : Config} {s s' : State} {i : Nat} {c : Conn}

/-- What a step keeps of a connection that is listed before and after it. -/
theorem MainStep.reg_eq {inp : MainInput} (hown : Owns cfg s) (hstep : MainStep cfg s inp s')
    (hinp : ∀ evs, inp ≠ .epollWait evs) {fd : Fd} (hc : s.connect fd = some c)
    (hc' : s'.connect fd = some c) (hreg : (s.reg fd).isSome) : s'.reg fd = s.reg fd := by
  have hother : ∀ {cl : Closing} {after : AfterClose}, s.main = .closing cl after →
      (s.closeStep cl).1.connect fd = some c → (s.closeStep cl).1.reg fd = s.reg fd := by
    intro cl after hpc hc'
    refine (closeStep_other ?_).2.2
    rintro rfl
    simp [closeStep_connect (hown.mainClosing_fd hpc).2] at hc'
  cases hstep with
  | epollWait => exact absurd rfl (hinp _)
  | @register c₀ _ ok hpc =>
    have hnot : ¬ (ok = true ∧ (s.owner (s.sd c₀)).isSome ∧ s.reg (s.sd c₀) = none) ∨
        fd ≠ s.sd c₀ := by
      by_cases hfd : fd = s.sd c₀
      · subst hfd
        left
        rintro ⟨-, -, hnone⟩
        simp [hnone] at hreg
      · exact .inr hfd
    simp only [State.ctlAdd]
    rcases hnot with hnot | hne
    · rw [if_neg hnot]
    · split
      · rw [Function.update_of_ne hne]
      · rfl
  | @rearmListen ok hpc =>
    have hmain := hown.main
    rw [hpc] at hmain
    have hne : fd ≠ cfg.sockmain := by
      rintro rfl
      have howner := hown.entry _ c hc
      rw [(hown.listen _).mpr ⟨rfl, hmain⟩] at howner
      cases howner
    simp only [State.ctlMod]
    split
    · rw [Function.update_of_ne hne]
    · rfl
  | @closing cl _ _ s₁ hpc hclose =>
    obtain rfl : s₁ = (s.closeStep cl).1 := by rw [hclose]
    exact hother hpc hc'
  | @closed cl after s₁ hpc hclose =>
    obtain rfl : s₁ = (s.closeStep cl).1 := by rw [hclose]
    cases after with
    | add c | refused c => exact hother hpc hc'
    | event e =>
      revert hc'
      by_cases hfd : e.fd = cfg.sockmain <;> simp only [State.afterClose, hfd, if_true, if_false] <;>
        exact hother hpc
  | _ => rfl

theorem WorkerStep.closing_fd (hown : Owns cfg s) {cl : Closing} {c₀ : Conn} {fd : Fd}
    (hpc : (s.slot i).pc = .closing cl c₀) (hc' : (s.closeStep cl).1.connect fd = some c) :
    fd ≠ cl.sd := by
  rintro rfl
  simp [closeStep_connect ((hown.slots i).closing cl c₀ hpc).2] at hc'

theorem WorkerStep.reg_isSome {inp : WorkerInput} (hown : Owns cfg s)
    (hstep : WorkerStep s i inp s') {fd : Fd} (hc' : s'.connect fd = some c)
    (hreg : (s.reg fd).isSome) : (s'.reg fd).isSome := by
  cases hstep with
  | rearm hpc =>
    rw [← ctlMod_isSome s _ fd] at hreg
    exact hreg
  | @closing cl _ _ s₁ hpc hclose | @closed cl _ s₁ hpc hclose =>
    obtain rfl : s₁ = (s.closeStep cl).1 := by rw [hclose]
    have hne := WorkerStep.closing_fd hown hpc hc'
    rw [← (closeStep_other hne).2.2] at hreg
    exact hreg
  | _ => exact hreg

/-- A worker touches no registration that is armed. -/
theorem WorkerStep.reg_eq {inp : WorkerInput} (hown : Owns cfg s)
    (hstep : WorkerStep s i inp s') {fd : Fd} {mask : Events} (hc : s.connect fd = some c)
    (hc' : s'.connect fd = some c) (harm : s.reg fd = some ⟨mask, true⟩) :
    s'.reg fd = s.reg fd := by
  cases hstep with
  | @rearm c₀ next ok hpc =>
    have hheld : s.At c₀ (.held i) := (hown.slots i).working c₀ (by simp [hpc, WorkerPc.working])
    have hne : fd ≠ s.sd c₀ := by
      rintro rfl
      have howner := (hown.live c₀ _ hheld).symm.trans (hown.entry _ c hc)
      obtain rfl : c₀ = c := by simpa using howner
      cases hown.exclusive c₀ .armed _ ⟨_, mask, harm, hown.entry _ c₀ hc⟩ hheld
    change (s.ctlMod _ _ _).reg fd = _
    simp only [State.ctlMod]
    split
    · rw [Function.update_of_ne hne]
    · rfl
  | @closing cl _ _ s₁ hpc hclose | @closed cl _ s₁ hpc hclose =>
    obtain rfl : s₁ = (s.closeStep cl).1 := by rw [hclose]
    exact (closeStep_other (WorkerStep.closing_fd hown hpc hc')).2.2
  | _ => rfl

/-- A step of `tst_main` on the socket of a connection. -/
theorem MainStep.sock_eq {inp : MainInput} (hstep : MainStep cfg s inp s') (hc : c < s.fresh) :
    s'.sd c = s.sd c ∧ ((s'.sock c).events = (s.sock c).events ∨
      ∃ d i, s.main = .setSocket d i ∧ d.conn = c) := by
  have hset : ∀ (c₀ : Conn) (sock : TstSocket), sock.sd = s.sd c₀ →
      sock.events = (s.sock c₀).events → (s.setSock c₀ sock).sd c = s.sd c ∧
      ((s.setSock c₀ sock).sock c).events = (s.sock c).events := by
    intro c₀ sock hsd hevents
    refine ⟨congrFun (setSock_sd hsd) c, ?_⟩
    by_cases hc₀ : c = c₀
    · simp [hc₀, hevents]
    · simp [hc₀]
  cases hstep with
  | epollWait hpc _ _ hdel =>
    obtain ⟨batch, reg, rfl⟩ := deliver_frame hdel
    rcases takeEvent_cases { s with batch := batch, reg := reg } with ⟨-, ht⟩ | ⟨e, rest, -, ht⟩ <;>
      rw [ht] <;> exact ⟨rfl, .inl rfl⟩
  | accept =>
    have hne : c ≠ s.fresh := Nat.ne_of_lt hc
    simp [State.sd, hne]
  | @add c₀ hpc =>
    obtain ⟨hsd, hevents⟩ :=
      hset c₀ ((s.sock c₀).addBuffers cfg.recvBufSize cfg.sendBufSize) rfl rfl
    exact ⟨hsd, .inl hevents⟩
  | @fconnected c₀ _ recv send | @refuse c₀ _ recv send =>
    obtain ⟨hsd, hevents⟩ := hset c₀ { s.sock c₀ with recv, send } rfl rfl
    exact ⟨hsd, .inl hevents⟩
  | @setSocket d i hpc =>
    refine ⟨congrFun (setSock_sd (by simp [State.sd])) c, ?_⟩
    by_cases hd : d.conn = c
    · exact .inr ⟨d, i, hpc, hd⟩
    · exact .inl (by simp [Ne.symm hd])
  | @closing cl _ _ s₁ hpc hclose =>
    obtain rfl : s₁ = (s.closeStep cl).1 := by rw [hclose]
    simp [State.sd]
  | @closed cl after s₁ hpc hclose =>
    obtain rfl : s₁ = (s.closeStep cl).1 := by rw [hclose]
    cases after with
    | add c | refused c => simp [State.afterClose, State.sd]
    | event e => by_cases hfd : e.fd = cfg.sockmain <;> simp [State.afterClose, State.sd, hfd]
  | _ => exact ⟨rfl, .inl rfl⟩

theorem WorkerStep.sock_eq {inp : WorkerInput} (hstep : WorkerStep s i inp s') :
    s'.sd c = s.sd c ∧ (s'.sock c).events = (s.sock c).events := by
  cases hstep with
  | @job c₀ k hpc =>
    refine ⟨congrFun (setSock_sd (by simp [State.sd])) c, ?_⟩
    by_cases hc : c = c₀ <;> simp [hc]
  | @call c₀ next recv send hpc =>
    have hsd : ({ s.sock c₀ with recv, send } : TstSocket).sd = s.sd c₀ := rfl
    refine ⟨congrFun (setSock_sd hsd) c, ?_⟩
    by_cases hc : c = c₀ <;> simp [hc]
  | @closing cl _ _ s₁ hpc hclose | @closed cl _ s₁ hpc hclose =>
    obtain rfl : s₁ = (s.closeStep cl).1 := by rw [hclose]
    simp [State.sd]
  | _ => exact ⟨rfl, rfl⟩

/-- A fetched output event of an open connection stays, until it is dispatched. -/
theorem MainStep.fetched_mem {inp : MainInput} (hown : Owns cfg s) (hhand : s.HandedOff)
    (hstep : MainStep cfg s inp s') (hu : s.Unsent c) {e : Event} (he : e ∈ s.fetched)
    (hsrc : e.src = .conn c) (hout : e.events.takesOut = true) :
    e ∈ s'.fetched ∨ ∃ i, s'.Sending i c := by
  have hfd : e.fd = s.sd c := hown.fetched_fd hu.listed he hsrc
  have hmain := hown.main
  -- the event of the listening socket is another one
  have hlisten : ∀ e₀ : Event, e₀ ∈ s.fetched → e₀.fd = cfg.sockmain → cfg.listening = true →
      e ≠ e₀ := by
    rintro e₀ he₀ hfd₀ hl rfl
    have hsource := hown.source e he₀
    rw [hfd₀, (hown.listen _).mpr ⟨rfl, hl⟩, hsrc] at hsource
    simp at hsource
  cases hstep with
  | epollWait hpc _ hbatch => simp [State.fetched, hpc, hbatch, MainPc.inHand] at he
  | @accept e₀ _ hpc hfd₀ hl | @acceptError e₀ _ hpc hfd₀ hl | @listenOther e₀ hpc hfd₀ hl =>
    have hne := hlisten e₀ (by simp [State.fetched, hpc, MainPc.inHand]) hfd₀ hl
    refine .inl (List.mem_append_right _ ?_)
    simpa [State.fetched, hpc, MainPc.inHand, hne] using he
  | @lookupNull e₀ _ hpc hmap =>
    have hne : e ≠ e₀ := by
      rintro rfl
      rw [hfd, hu.listed] at hmap
      cases hmap
    refine .inl (List.mem_append_right _ ?_)
    simpa [State.fetched, hpc, MainPc.inHand, hne] using he
  | @setSocket d i hpc =>
    rcases (by simpa [State.fetched, hpc, MainPc.inHand] using he : e = d.ev ∨ e ∈ s.batch) with
      rfl | he
    · rw [hpc] at hmain
      obtain rfl : d.conn = c := by simpa using hmain.symm.trans hsrc
      have hi : Handoff (.storing d.conn) (s.slot i) := by simpa [hpc, MainPc.view] using hhand i
      have hin := hi.outside (by simp) (by simp [hi.locked rfl])
      have hstat := hi.full (by simp [Slot.pending])
      exact .inr ⟨i, .assigned rfl (by simpa using hin) (by simpa using hstat) (by simp)
        (by simpa using hout)⟩
    · exact .inl (List.mem_append_right _ he)
  | @closing cl _ after s₁ hpc hclose =>
    obtain rfl : s₁ = (s.closeStep cl).1 := by rw [hclose]
    refine .inl ?_
    cases after <;> simpa [State.fetched, hpc, MainPc.inHand] using he
  | @closed cl after s₁ hpc hclose =>
    obtain rfl : s₁ = (s.closeStep cl).1 := by rw [hclose]
    have hbatch : e ∈ s.batch := by
      rw [hpc] at hmain
      cases after with
      | add c | refused c => simpa [State.fetched, hpc, MainPc.inHand] using he
      | event e₀ =>
        have hne : e ≠ e₀ := by
          rintro rfl
          exact hu.kept (by simp [hpc, MainPc.closes, hmain.1.trans hfd])
        simpa [State.fetched, hpc, MainPc.inHand, hne] using he
    refine .inl (List.mem_append_right _ ?_)
    cases after with
    | add c | refused c => simpa [State.afterClose] using hbatch
    | event e₀ => by_cases hmain : e₀.fd = cfg.sockmain <;> simpa [State.afterClose, hmain] using hbatch
  | _ =>
    refine .inl ?_
    simpa [*, State.fetched, MainPc.inHand, State.ctlAdd, State.ctlMod] using he

theorem takesOut_of {e : Events} (h : e ≠ {}) (hin : e.input = false) (hh : e.hangup = false) :
    e.takesOut = true := by
  obtain ⟨hi, hp⟩ : e.epollin = false ∧ e.epollpri = false := by simpa [Events.input] using hin
  obtain ⟨⟨hhup, hrd⟩, herr⟩ : (e.epollhup = false ∧ e.epollrdhup = false) ∧ e.epollerr = false := by
    simpa [Events.hangup] using hh
  by_contra hout
  have hout : e.epollout = false := by simpa [Events.takesOut, hin] using hout
  apply h
  cases e
  simp_all

/-- `epoll_wait` leaves an output registration armed, or fetches an event of it. -/
theorem deliver_output {evs : List (Fd × Events)} {s₁ : State} {fd : Fd} {mask : Events}
    (hdel : s.deliver cfg evs = some s₁)
    (hev : ∀ ev ∈ evs, s.owner ev.1 = some (.conn c) → ev.2.input = true → ev.2.hangup = true)
    (howner : s.owner fd = some (.conn c)) (harm : s.reg fd = some ⟨mask, true⟩) :
    s₁.reg fd = some ⟨mask, true⟩ ∨
      ∃ e ∈ s₁.batch, e.src = .conn c ∧ (e.events.hangup = false → e.events.takesOut = true) := by
  have hkeep : s₁.owner = s.owner ∧ (s₁.reg fd = some ⟨mask, true⟩ ∨
      ∃ e ∈ s₁.batch, e.src = .conn c ∧ (e.events.hangup = false → e.events.takesOut = true)) := by
    refine deliver_invariant (P := fun t => t.owner = s.owner ∧ (t.reg fd = some ⟨mask, true⟩ ∨
      ∃ e ∈ t.batch, e.src = .conn c ∧ (e.events.hangup = false → e.events.takesOut = true)))
      ?_ ⟨rfl, .inl harm⟩ hdel
    rintro t ev t' hmem ⟨htowner, ht⟩ hone
    obtain ⟨r, src, hreg, hsrc, -, hoffers, rfl⟩ := deliverOne_eq hone
    refine ⟨htowner, ?_⟩
    rcases ht with ht | ⟨e, he, hrest⟩
    · by_cases hfd : fd = ev.1
      · subst hfd
        obtain rfl : src = .conn c := by
          rw [htowner, howner] at hsrc
          exact (Option.some.inj hsrc).symm
        refine .inr ⟨_, List.mem_cons_self .., rfl, fun hh => takesOut_of ?_ ?_ hh⟩
        · simp only [Registration.offers, Bool.and_eq_true, decide_eq_true_eq] at hoffers
          exact hoffers.1.1.1.1
        · by_contra hin
          have := hev ev hmem howner (by simpa using hin)
          rw [hh] at this
          cases this
      · exact .inl (by simpa [hfd] using ht)
    · exact .inr ⟨e, List.mem_cons_of_mem _ he, hrest⟩
  exact hkeep.2

/-- `tst_main` leaves a slot alone that has a job. -/
theorem MainStep.slot_eq {inp : MainInput} (hstep : MainStep cfg s inp s')
    (hview : s.main.view i = .away) (hstat : (s.slot i).stat = .run) :
    s'.slot i = s.slot i ∧ s'.main.view i = .away := by
  cases hstep with
  | epollWait hpc _ _ hdel =>
    obtain ⟨batch, reg, rfl⟩ := deliver_frame hdel
    rcases takeEvent_cases { s with batch := batch, reg := reg } with ⟨-, ht⟩ | ⟨e, rest, -, ht⟩ <;>
      rw [ht] <;> simp [hpc, MainPc.view]
  | @closing cl _ _ s₁ hpc hclose =>
    obtain rfl : s₁ = (s.closeStep cl).1 := by rw [hclose]
    simp [MainPc.view]
  | @closed cl after s₁ hpc hclose =>
    obtain rfl : s₁ = (s.closeStep cl).1 := by rw [hclose]
    cases after with
    | add c | refused c => simp [State.afterClose, MainPc.view]
    | event e => by_cases hfd : e.fd = cfg.sockmain <;> simp [State.afterClose, MainPc.view, hfd]
  | @scanFree d j hpc hi hfree =>
    have hj : j ≠ i := by
      rintro rfl
      simp [hstat] at hfree
    simp [MainPc.view, hj]
  | @setRun d j hpc | @setSocket d j hpc | @exitStore j hpc =>
    have hj : j ≠ i := by
      rintro rfl
      simp [hpc, MainPc.view] at hview
    simp [MainPc.view, hj, hj.symm]
  | @exitScanFree j hpc hlock hfree =>
    have hj : j ≠ i := by
      rintro rfl
      simp [hstat] at hfree
    simp [MainPc.view, hj, hj.symm]
  | _ => simp [MainPc.view, State.ctlAdd, State.ctlMod]

theorem State.Sending.held (h : s.Sending i c) (hown : Owns cfg s) : s.holds i c = true := by
  cases h with
  | assigned hview hin hstat hsocket hout =>
    refine (hown.slots i).named c ?_
    revert hin
    simp only [Slot.named]
    split <;> simp [*]
  | job hpc => exact (hown.slots i).working c (by simp [hpc, WorkerPc.working])
  | ending hpc =>
    refine (hown.slots i).working c ?_
    rcases hpc with hpc | hpc <;> simp [hpc, WorkerPc.working]

theorem MainStep.sending {inp : MainInput} (hown : Owns cfg s) (hstep : MainStep cfg s inp s')
    (hu : s.Unsent c) (h : s.Sending i c) : s'.Sending i c := by
  have hheld := h.held hown
  have hevents : (s'.sock c).events = (s.sock c).events := by
    have hfresh := (hown.owner _ c (hown.entry _ c hu.listed)).2
    rcases (hstep.sock_eq hfresh).2 with heq | ⟨d, j, hpc, rfl⟩
    · exact heq
    · -- the event that is dispatched is one of another connection
      have hsrc := hown.main
      rw [hpc] at hsrc
      have hqueued : s.At d.conn .queued :=
        ⟨d.ev, by simp [State.fetched, hpc, MainPc.inHand], hsrc⟩
      cases hown.exclusive d.conn (.held i) _ hheld hqueued
  have hpcs := hstep.frame.1 i
  cases h with
  | assigned hview hin hstat hsocket hout =>
    obtain ⟨hslot, hview'⟩ := hstep.slot_eq hview hstat
    exact .assigned hview' (hslot ▸ hin) (hslot ▸ hstat) (hslot ▸ hsocket) (hevents ▸ hout)
  | job hpc hout => exact .job (hpcs.trans hpc) (hevents ▸ hout)
  | ending hpc => exact .ending (by rwa [hpcs])

/-- A worker with a job that it has not begun goes on towards it. -/
theorem Slot.Step.assigned {workRun : Bool} {sl sl' : Slot} {inp : WorkerInput}
    (hstep : Slot.Step workRun sl inp sl') (hok : sl.handoffOk .away = true)
    (hin : sl.pc.inJob = false) (hstat : sl.stat = .run) (hsocket : sl.tstSocket = some c) :
    sl'.pc = .job c ∨
      sl'.pc.inJob = false ∧ sl'.stat = .run ∧ sl'.tstSocket = some c := by
  have hpending : sl.pending .away = some c := by simp only [Slot.pending, hin, hsocket]; simp
  cases hstep with
  | takeSocket hpc hsocket' =>
    exact .inl (by simpa [hsocket] using hsocket'.symm)
  | takeNull hpc hsocket' => simp [hsocket] at hsocket'
  | lockEnd hpc | storeNext hpc | clearSocket hpc => simp [hpc] at hin
  | errStore hpc | otherStore hpc | exitMark hpc | exitStore hpc =>
    simp [Slot.handoffOk, hpc, hpending] at hok
  | @idleStore next hpc hlock =>
    have hnext : next = .run := by simpa [Slot.handoffOk, hpc, hpending] using hok
    exact .inr ⟨rfl, hnext, hsocket⟩
  | loop hpc => exact .inr ⟨by cases workRun <;> rfl, hstat, hsocket⟩
  | testWait hpc | testRun hpc | testSuspend hpc | testExit hpc =>
    exact .inr ⟨by dsimp only; split <;> rfl, hstat, hsocket⟩
  | waiting hpc hlock => exact .inr ⟨by dsimp only; split <;> rfl, hstat, hsocket⟩
  | idleMark hpc => exact .inr ⟨rfl, rfl, hsocket⟩
  | idleCall hpc => exact .inr ⟨rfl, hstat, hsocket⟩

/-- An output job that leaves bytes unsent asks for `EPOLLOUT` again. -/
theorem transfer_unsent {sock : TstSocket} {d d' : TstData} {k : Kernel}
    (hout : sock.events.takesOut = true) (hsend : sock.send = some d) (hp : d.Pending)
    (hsend' : (sock.transfer k).sock.send = some d') (hp' : d'.Pending) :
    (sock.transfer k).next = .send := by
  have hreq : d.reqLen ≠ 0 := by
    intro hzero
    simp [TstData.Pending, hzero] at hp
  have hwakes : Direction.send.Wakes sock.events := by
    simpa [Events.takesOut, Direction.Wakes] using hout
  have hdata : Direction.send.data sock = some d := hsend
  obtain ⟨hafter, hnext, -⟩ := TstSocket.transfer_data (k := k) hwakes hdata hreq
  have hsend' : some d' = some (d.autoSend k).data := hsend'.symm.trans hafter
  obtain rfl := Option.some.inj hsend'
  rw [hnext]
  change (d.autoSend k).next = .send
  have hnot : ¬ d.comLen ≥ d.reqLen := UInt32.not_le.mpr hp
  simp only [TstData.autoSend, hnot, if_false] at hp' ⊢
  exact if_pos hp'

/-- The worker that is to send goes on, or has re-armed the socket. -/
theorem WorkerStep.sending {inp : WorkerInput} (hown : Owns cfg s) (hpos : s.Positive)
    (hok : outputOk c s (.worker i inp) = true) (hstep : WorkerStep s i inp s')
    (hu : s.Unsent c) (hu' : s'.Unsent c) (hreg : (s.reg (s.sd c)).isSome)
    (h : s.Sending i c) : s'.OutCovered c := by
  have hlive := hown.live c (.held i) (h.held hown)
  have hfd := hpos (s.sd c) (by simp [hlive])
  obtain ⟨hpool, hctl⟩ : poolOk s (.worker i inp) = true ∧ _ := by
    simpa only [outputOk, Bool.and_eq_true] using hok
  have hhand : (s.slot i).handoffOk (s.main.view i) = true := by
    simp only [poolOk, Bool.and_eq_true] at hpool
    exact hpool.2
  cases h with
  | assigned hview hin hstat hsocket hout =>
    cases hstep with
    | own hsl =>
      rcases hsl.assigned (hview ▸ hhand) hin hstat hsocket with hpc | ⟨hin', hstat', hsocket'⟩
      · exact .sending (i := i) (.job (by simpa using hpc) hout)
      · exact .sending (i := i) (.assigned hview (by simpa using hin') (by simpa using hstat')
          (by simpa using hsocket') hout)
    | job hpc | call hpc | rearmClose hpc | rearm hpc | rearmSkip hpc | closing hpc | closed hpc =>
      simp [hpc] at hin
  | job hpc hout =>
    cases hstep with
    | own hsl => cases hsl <;> simp_all
    | @job c₀ k hpc' =>
      obtain rfl : c = c₀ := by simpa using hpc.symm.trans hpc'
      obtain ⟨d, hsend, hp⟩ := hu.pending
      obtain ⟨d', hsend', hp'⟩ := hu'.pending
      have hnext := transfer_unsent hout hsend hp (by simpa using hsend') hp'
      exact .sending (i := i) (.ending (.inl (by simp [hnext])))
    | call hpc' | rearmClose hpc' | rearm hpc' | rearmSkip hpc' | closing hpc' | closed hpc' =>
      simp [hpc] at hpc'
  | ending hpc =>
    cases hstep with
    | own hsl =>
      cases hsl with
      | @lockEnd c₀ next hpc' hlock =>
        obtain ⟨rfl, rfl⟩ : c₀ = c ∧ next = .send := by simpa [hpc'] using hpc
        exact .sending (i := i) (.ending (.inr (by simp)))
      | _ => simp_all
    | @rearm c₀ next ok hpc' hnext =>
      obtain ⟨rfl, rfl⟩ : c₀ = c ∧ next = .send := by simpa [hpc'] using hpc
      obtain rfl := hctl
      have harm : (s.ctlMod (s.sd c₀) (clientMask .send) true).reg (s.sd c₀) =
          some ⟨clientMask .send, true⟩ := by simp [State.ctlMod, hreg]
      exact .armed harm rfl
    | rearmSkip hpc' hsd =>
      obtain ⟨rfl, rfl⟩ : _ = c ∧ _ = TstStat.send := by simpa [hpc'] using hpc
      exact absurd hsd (Nat.ne_of_gt hfd)
    | job hpc' | call hpc' | rearmClose hpc' | closing hpc' | closed hpc' =>
      simp [hpc'] at hpc

theorem MainStep.reg_isSome {inp : MainInput} (hown : Owns cfg s)
    (hstep : MainStep cfg s inp s') {fd : Fd} (hc : s.connect fd = some c)
    (hc' : s'.connect fd = some c) (hreg : (s.reg fd).isSome) : (s'.reg fd).isSome := by
  by_cases hinp : ∃ evs, inp = .epollWait evs
  · obtain ⟨evs, rfl⟩ := hinp
    cases hstep with
    | @epollWait _ s₁ hpc _ _ hdel =>
      have hkeep : (s₁.reg fd).isSome := by
        refine deliver_invariant (P := fun t => (t.reg fd).isSome) ?_ hreg hdel
        rintro t ev t' - ht hone
        obtain ⟨r, src, -, -, -, -, rfl⟩ := deliverOne_eq hone
        by_cases hfd : fd = ev.1
        · simp [hfd]
        · simpa [hfd] using ht
      rcases takeEvent_cases s₁ with ⟨-, ht⟩ | ⟨e, rest, -, ht⟩ <;> rw [ht] <;> exact hkeep
    | toClient hpc' => exact hreg
  · rw [hstep.reg_eq hown (fun evs heq => hinp ⟨evs, heq⟩) hc hc' hreg]
    exact hreg

theorem mainStep_output {inp : MainInput} (hown : Owns cfg s) (hhand : s.HandedOff)
    (hok : outputOk c s (.main inp) = true) (hstep : MainStep cfg s inp s')
    (hu : s.Unsent c) (hu' : s'.Unsent c) (hsd : s'.sd c = s.sd c)
    (h : s.OutCovered c) : s'.OutCovered c := by
  have hc' : s'.connect (s.sd c) = some c := hsd ▸ hu'.listed
  cases h with
  | @armed mask hreg hmask =>
    by_cases hinp : ∃ evs, inp = .epollWait evs
    · obtain ⟨evs, rfl⟩ := hinp
      have hev : ∀ ev ∈ evs, s.owner ev.1 = some (.conn c) → ev.2.input = true →
          ev.2.hangup = true := by
        intro ev hmem howner hin
        have hall := hok
        simp only [outputOk, Bool.and_eq_true, List.all_eq_true] at hall
        simpa [howner, hin] using hall.2 ev hmem
      cases hstep with
      | @epollWait _ s₁ hpc _ _ hdel =>
        have hhand₁ : s₁.main.inHand = [] := by
          obtain ⟨batch, reg, rfl⟩ := deliver_frame hdel
          simp [hpc, MainPc.inHand]
        have htake : s₁.takeEvent.reg = s₁.reg ∧ ∀ e ∈ s₁.batch, e ∈ s₁.takeEvent.fetched := by
          rcases takeEvent_cases s₁ with ⟨-, ht⟩ | ⟨e, rest, hbatch, ht⟩
          · rw [ht]
            exact ⟨rfl, fun e he => List.mem_append_right _ he⟩
          · rw [ht]
            exact ⟨rfl, by simp [State.fetched, MainPc.inHand, hbatch]⟩
        rcases deliver_output hdel hev (hown.entry _ c hu.listed) hreg with
          harm | ⟨e, he, hsrc, hout⟩
        · exact .armed (by rw [htake.1, hsd]; exact harm) hmask
        · have hmem := htake.2 e he
          exact .fetched hmem hsrc (hout (hu'.alive e hmem hsrc))
      | toClient hpc => exact .armed hreg hmask
    · have heq := hstep.reg_eq hown (fun evs heq => hinp ⟨evs, heq⟩) hu.listed hc' (by simp [hreg])
      exact .armed (by rw [hsd, heq]; exact hreg) hmask
  | fetched he hsrc hout =>
    rcases hstep.fetched_mem hown hhand hu he hsrc hout with he' | ⟨i, hi⟩
    · exact .fetched he' hsrc hout
    · exact .sending hi
  | sending hi => exact .sending (hstep.sending hown hu hi)

theorem WorkerStep.fetched_eq {inp : WorkerInput} (hstep : WorkerStep s i inp s') :
    s'.fetched = s.fetched := by
  cases hstep with
  | @closing cl _ _ s₁ hpc hclose | @closed cl _ s₁ hpc hclose =>
    obtain rfl : s₁ = (s.closeStep cl).1 := by rw [hclose]
    simp [State.fetched]
  | _ => rfl

theorem workerStep_output {inp : WorkerInput} (hown : Owns cfg s) (hpos : s.Positive)
    (hok : outputOk c s (.worker i inp) = true) (hstep : WorkerStep s i inp s')
    (hu : s.Unsent c) (hu' : s'.Unsent c) (hreg : (s.reg (s.sd c)).isSome)
    (h : s.OutCovered c) : s'.OutCovered c := by
  obtain ⟨hsd, hevents⟩ := hstep.sock_eq (c := c)
  have hc' : s'.connect (s.sd c) = some c := hsd ▸ hu'.listed
  cases h with
  | armed harm hmask =>
    exact .armed (by rw [hsd, hstep.reg_eq hown hu.listed hc' harm]; exact harm) hmask
  | fetched he hsrc hout => exact .fetched (by rwa [hstep.fetched_eq]) hsrc hout
  | @sending j hj =>
    by_cases hij : j = i
    · subst hij
      exact hstep.sending hown hpos hok hu hu' hreg hj
    · obtain ⟨hmain, hslot⟩ := hstep.frame
      have hslot := hslot j hij
      refine .sending (i := j) ?_
      cases hj with
      | assigned hview hin hstat hsocket hout =>
        exact .assigned (hmain ▸ hview) (hslot ▸ hin) (hslot ▸ hstat) (hslot ▸ hsocket)
          (hevents ▸ hout)
      | job hpc hout => exact .job (hslot ▸ hpc) (hevents ▸ hout)
      | ending hpc => exact .ending (hslot ▸ hpc)

/-- A step of a thread outside the pool. -/
theorem State.OutCovered.outside (h : s.OutCovered c) (hsd : s'.sd c = s.sd c)
    (hreg : ∀ mask, s.reg (s.sd c) = some ⟨mask, true⟩ → mask.epollout = true →
      ∃ mask', s'.reg (s.sd c) = some ⟨mask', true⟩ ∧ mask'.epollout = true)
    (hmain : s'.main = s.main) (hbatch : s'.batch = s.batch) (hslot : s'.slot = s.slot)
    (hevents : (s'.sock c).events = (s.sock c).events) : s'.OutCovered c := by
  cases h with
  | armed harm hmask =>
    obtain ⟨mask', harm', hmask'⟩ := hreg _ harm hmask
    exact .armed (hsd ▸ harm') hmask'
  | fetched he hsrc hout =>
    exact .fetched (by simpa only [State.fetched, hmain, hbatch] using he) hsrc hout
  | @sending i hi =>
    refine .sending (i := i) ?_
    cases hi with
    | assigned hview hin hstat hsocket hout =>
      exact .assigned (hmain ▸ hview) (hslot ▸ hin) (hslot ▸ hstat) (hslot ▸ hsocket)
        (hevents ▸ hout)
    | job hpc hout => exact .job (hslot ▸ hpc) (hevents ▸ hout)
    | ending hpc => exact .ending (hslot ▸ hpc)

theorem step_output {a : Action} (hown : Owns cfg s) (hhand : s.HandedOff) (hpos : s.Positive)
    (hok : outputOk c s a = true) (hstep : step cfg s a = some s') (hu : s.Unsent c)
    (hu' : s'.Unsent c) (hreg : (s.reg (s.sd c)).isSome) (h : s.OutCovered c) :
    s'.OutCovered c ∧ (s'.reg (s'.sd c)).isSome := by
  have hsend : needSendOk s a = true := by
    simp only [outputOk, poolOk, Bool.and_eq_true] at hok
    exact hok.1.1
  revert hstep
  fun_cases step cfg s a <;> intro hstep <;> try cases hstep
  · next inp =>
    have hmain := mainStep_cases hstep
    have hsd := (hmain.sock_eq (hown.owner _ c (hown.entry _ c hu.listed)).2).1
    refine ⟨mainStep_output hown hhand hok hmain hu hu' hsd h, ?_⟩
    rw [hsd]
    exact hmain.reg_isSome hown hu.listed (hsd ▸ hu'.listed) hreg
  · next i inp _ =>
    have hworker := workerStep_cases hstep
    obtain ⟨hsd, -⟩ := hworker.sock_eq (c := c)
    refine ⟨workerStep_output hown hpos hok hworker hu hu' hreg h, ?_⟩
    rw [hsd]
    exact hworker.reg_isSome hown (hsd ▸ hu'.listed) hreg
  · next sd ok =>
    split
    · refine ⟨h.outside rfl (fun mask harm hmask => ?_) rfl rfl rfl rfl,
        (ctlMod_isSome s sd (s.sd c) .baseOut ok).trans hreg⟩
      by_cases hp : ok = true ∧ (s.reg sd).isSome = true
      · by_cases hfd : s.sd c = sd
        · exact ⟨.baseOut, by simp only [State.ctlMod, if_pos hp, hfd, Function.update_self], rfl⟩
        · exact ⟨mask, by simpa only [State.ctlMod, if_pos hp, Function.update_of_ne hfd], hmask⟩
      · exact ⟨mask, by simpa only [State.ctlMod, if_neg hp], hmask⟩
    · exact ⟨h, hreg⟩
  · simp [needSendOk] at hsend
  · simp [needSendOk] at hsend
  · next fd send c₀ _ =>
    have hsd : (s.setSock c₀ { s.sock c₀ with send }).sd = s.sd := setSock_sd rfl
    refine ⟨h.outside (congrFun hsd c) (fun mask harm hmask => ⟨mask, harm, hmask⟩) rfl rfl rfl ?_,
      by rw [hsd]; exact hreg⟩
    by_cases hc : c = c₀ <;> simp [hc]
  · exact ⟨h.outside rfl (fun mask harm hmask => ⟨mask, harm, hmask⟩) rfl rfl rfl rfl, hreg⟩

/-- After a request the registration is armed with `EPOLLOUT`. -/
theorem requests_armed {a : Action} (hown : Owns cfg s) (hreq : s.requests c a = true)
    (hstep : step cfg s a = some s') :
    s'.OutCovered c ∧ (s'.reg (s'.sd c)).isSome := by
  have hdone : s'.sd = s.sd → s'.reg (s.sd c) = some ⟨.baseOut, true⟩ →
      s'.OutCovered c ∧ (s'.reg (s'.sd c)).isSome := by
    intro hsd harm
    exact ⟨.armed (hsd ▸ harm) rfl, by simp [hsd, harm]⟩
  revert hstep
  fun_cases step cfg s a <;> intro hstep <;> try cases hstep
  · next inp =>
    cases mainStep_cases hstep with
    | @register c₀ next ok hpc =>
      obtain ⟨⟨rfl, hmain⟩, hnone⟩ : (ok = true ∧ s.main = .register c .send) ∧
          s.reg (s.sd c) = none := by simpa [State.requests] using hreq
      obtain ⟨rfl, rfl⟩ : c₀ = c ∧ next = .send := by simpa using hpc.symm.trans hmain
      have hlive := hown.live c₀ .joining (by simp [State.At, hpc, MainPc.joins])
      exact hdone rfl (by simp [State.ctlAdd, hlive, hnone, clientMask])
    | rearmListen hpc => simp [State.requests, hpc] at hreq
    | toClient hpc => cases inp <;> simp [State.requests, hpc] at hreq
    | _ => simp [State.requests] at hreq
  · next i inp _ =>
    cases workerStep_cases hstep with
    | @rearm c₀ next ok hpc hnext hsd =>
      obtain ⟨⟨rfl, hpc'⟩, hreg⟩ : (ok = true ∧ (s.slot i).pc = .rearm c .send) ∧
          (s.reg (s.sd c)).isSome := by simpa [State.requests] using hreq
      obtain ⟨rfl, rfl⟩ : c₀ = c ∧ next = .send := by simpa using hpc.symm.trans hpc'
      exact hdone rfl (by simp [State.ctlMod, hreg, clientMask])
    | own hsl => cases hsl <;> simp [State.requests] at hreq
    | _ => simp [State.requests] at hreq
  · next sd ok =>
    obtain ⟨⟨⟨rfl, hrun⟩, rfl⟩, hreg⟩ : ((ok = true ∧ s.mainRun = true) ∧ sd = s.sd c) ∧
        (s.reg sd).isSome := by simpa [State.requests] using hreq
    rw [if_pos hrun] at hdone ⊢
    exact hdone rfl (by simp [State.ctlMod, hreg])
  all_goals simp [State.requests] at hreq

/-- What the window after a request keeps. -/
structure OutInv (cfg : Config) (c : Conn) (s : State) : Prop extends Sound cfg s where
  covered : s.OutCovered c
  reg : (s.reg (s.sd c)).isSome

theorem step_outInv {a : Action} (h : OutInv cfg c s) (hok : outputOk c s a = true)
    (hu : s.Unsent c) (hu' : s'.Unsent c) (hstep : step cfg s a = some s') :
    OutInv cfg c s' := by
  obtain ⟨hpool, -⟩ : poolOk s a = true ∧ _ := by
    simpa only [outputOk, Bool.and_eq_true] using hok
  obtain ⟨hcov, hreg⟩ :=
    step_output h.owns h.handedOff h.positive hok hstep hu hu' h.reg h.covered
  exact ⟨step_sound h.toSound hpool hstep, hcov, hreg⟩

end Invariant

/-- Output that has been requested while bytes wait stays covered as long as they wait, in
every run of the pool in which no input of the connection is fetched meanwhile. -/
theorem output_not_forgotten (cfg : Config) (c : Conn) (as bs : List Action) (a : Action)
    (s₀ s₁ s : State) (h₀ : Exec (step cfg) (fun s a => poolOk s a = true) (.init cfg) as s₀)
    (hok : poolOk s₀ a = true) (hreq : s₀.requests c a = true)
    (hstep : step cfg s₀ a = some s₁)
    (h : Exec (step cfg) (fun s a => outputOk c s a = true ∧ s.Unsent c) s₁ bs s)
    (hs : s.Unsent c) : s.OutCovered c := by
  have hsound : Sound cfg s₀ :=
    h₀.invariant (fun _ _ _ hb ht hstep => step_sound ht hb hstep) (.init cfg)
  obtain ⟨hcov, hreg⟩ := requests_armed hsound.owns hreq hstep
  have hwindow : OutInv cfg c s :=
    h.window hs (fun _ _ _ hb hu hu' ht hstep => step_outInv ht hb hu hu' hstep)
      ⟨step_sound hsound hok hstep, hcov, hreg⟩
  exact hwindow.covered

/-- A connection with descriptor 5 comes up, with five bytes to send. -/
def greetRun : List Action :=
  [.main (.epollWait [(3, { epollin := true })]), .main (.accept (some 5)), .main .go,
    .main .go, .main (.fconnected .send none (some .waiting))]

/-- Worker 0 ends its job with `tst_send` or `tst_suspend` and re-arms the socket. -/
def rearmRun : List Action := [.worker 0 .go, .worker 0 (.ctl true), .worker 0 .go, .worker 0 .go]

theorem output_not_forgotten_three :
    ∃ s : State, s.Unsent 0 ∧ s.reg 5 = some ⟨.baseOut, true⟩ ∧ s.OutCovered 0 := by
  have hrun : ∃ s₀ s₁ s : State, Exec (step .server) (fun s a => poolOk s a = true) (.init .server)
        greetRun s₀ ∧ poolOk s₀ (.main (.ctl true)) = true ∧
      s₀.requests 0 (.main (.ctl true)) = true ∧ step .server s₀ (.main (.ctl true)) = some s₁ ∧
      Exec (step .server) (fun s a => outputOk 0 s a = true ∧ s.Unsent 0) s₁
        (.main (.ctl true) :: assignRun 5 { epollout := true } ++ (jobRun 0 .suspend).dropLast ++
          rearmRun) s ∧
      s.Unsent 0 ∧ s.reg 5 = some ⟨.baseOut, true⟩ :=
    ⟨_, _, _, .of_check rfl, rfl, rfl, rfl, .of_check rfl, by decide, rfl⟩
  obtain ⟨s₀, s₁, s, h₀, hok, hreq, hstep, h, hs, hreg⟩ := hrun
  exact ⟨s, hs, hreg, output_not_forgotten .server 0 _ _ _ s₀ s₁ s h₀ hok hreq hstep h hs⟩

/-- While output waits, input of the connection arrives. The job takes the input branch, its
user function returns `tst_suspend`, and the worker re-arms the socket without
`EPOLLOUT`. -/
theorem input_forgets_output :
    ∃ s₀ s₁ s : State, run (step .server) (.init .server) greetRun = some s₀ ∧
      s₀.requests 0 (.main (.ctl true)) = true ∧ step .server s₀ (.main (.ctl true)) = some s₁ ∧
      Exec (step .server) (fun s _ => s.Unsent 0) s₁
        (.main (.ctl true) :: assignRun 5 { epollin := true, epollout := true } ++
          (jobRun 0 .suspend).dropLast ++ [.worker 0 (.returned .suspend none (some .waiting))] ++
          rearmRun) s ∧
      s.Unsent 0 ∧ ¬ s.OutCovered 0 := by
  have hnot : ∀ s : State, s.reg (s.sd 0) = some ⟨.base, true⟩ → s.fetched = [] →
      (∀ i, s.slot i = {} ∨ s.slot i = { pc := .loop }) → ¬ s.OutCovered 0 := by
    intro s hreg hfetched hslot hcov
    cases hcov with
    | armed harm hmask =>
      obtain rfl : Events.base = _ := by simpa [hreg] using harm
      cases hmask
    | fetched he => simp [hfetched] at he
    | @sending i hi =>
      rcases hslot i with hsl | hsl <;> cases hi <;> simp_all
  refine ⟨_, _, _, rfl, rfl, rfl, .of_check rfl, by decide, hnot _ rfl rfl fun i => ?_⟩
  cases i with
  | zero => exact .inr rfl
  | succ i => exact .inl rfl

end Tst.Pool
