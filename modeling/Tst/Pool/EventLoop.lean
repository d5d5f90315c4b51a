import Tst.Pool.Delivery

/-!
# The events of a batch

`tst_main` goes through the events that `epoll_wait` has returned from the last one backwards. It
counts an event off when it has called `accept()` for it, has closed its socket or has given the
socket to a worker. When no worker is idle it does not, and the loop begins again with the same
event.

## Main definitions

- `Book.step` — one step of the pool, with a record of the events fetched and handled
- `mainFuncOk` — what `m_fmain` answers
- `Once` — every fetched event has been handled once, is in hand, or waits

## Main results

- `handled_once` — so it is in every run, and the main loop ends before a batch does only when
  `m_main_run` has been cleared
- `events_dropped` — a hangup of the listening socket does that to an event of a client
- `fmain_repeated` — `m_fmain` is called again for an event that has found no idle worker
-/

namespace Tst.Pool

open Execution

/-- What `tst_main` has made of an event: it has called `accept()`, has done nothing with it, has
called `closesocket()`, or has given the socket to the worker `i`. -/
inductive Outcome
  | accepted
  | ignored
  | closed
  | dispatched (i : Nat)
  deriving DecidableEq, Repr

/-- An event that has been counted off: what has been made of it, how often `m_fmain` has been
called for it, and how often all workers have been found busy. -/
structure Handled where
  ev : Event
  outcome : Outcome
  calls : Nat
  rescans : Nat
  deriving DecidableEq, Repr

/-- The pool, with the events fetched so far in the order in which they are taken, those counted
off, and for the event that comes next the calls of `m_fmain` and the scans in vain. `stopped` says
that `destroy` has been called. -/
structure Book where
  pool : State
  fetched : List Event := []
  handled : List Handled := []
  calls : Nat := 0
  rescans : Nat := 0
  stopped : Bool := false

namespace Book

/-- The event is counted off. -/
def done (b : Book) (e : Event) (outcome : Outcome) (s : State) : Book :=
  { b with
    pool := s
    handled := b.handled ++ [⟨e, outcome, b.calls, b.rescans⟩]
    calls := 0
    rescans := 0 }

/-- What is noted of a step of `tst_main` to the state `s`. -/
def noteMain (cfg : Config) (b : Book) (inp : MainInput) (s : State) : Book :=
  match b.pool.main, inp with
  | .loop, .epollWait _ => { b with pool := s, fetched := b.fetched ++ s.events }
  | .event e, .accept _ => b.done e .accepted s
  | .event _, .fmain _ => { b with pool := s, calls := b.calls + 1 }
  | .event e, .go =>
    if e.fd = cfg.sockmain ∧ cfg.listening then b.done e .ignored s else { b with pool := s }
  | .client e, _ =>
    match s.main with
    | .closing _ _ => b.done e .closed s
    | _ => { b with pool := s }
  | .scan _ _, _ =>
    match s.main with
    | .loop => { b with pool := s, rescans := b.rescans + 1 }
    | _ => { b with pool := s }
  | .setSocket d i, _ => b.done d.ev (.dispatched i) s
  | _, _ => { b with pool := s }

/-- What is noted of a step. -/
def note (cfg : Config) (b : Book) (a : Action) (s : State) : Book :=
  match a with
  | .main inp => b.noteMain cfg inp s
  | .stop => { b with pool := s, stopped := true }
  | _ => { b with pool := s }

/-- One step of the pool, with what is noted of it. -/
def step (cfg : Config) (b : Book) (a : Action) : Option Book :=
  (Pool.step cfg b.pool a).map (b.note cfg a)

end Book

/-- `m_fmain` is set or not, and it answers less than `tst_reconnected`. -/
def mainFuncOk (cfg : Config) (set : Bool) (s : State) : Action → Bool
  | .main inp =>
    match s.main with
    | .event e =>
      if e.fd = cfg.sockmain ∧ cfg.listening = false then
        match inp with
        | .fmain next => set && decide (next < .reconnected)
        | _ => !set
      else true
    | _ => true
  | _ => true

/-- `tst_main` comes to its loop and has fetched nothing. -/
structure State.Fresh (s : State) : Prop where
  main : s.main = .loop
  batch : s.batch = []
  mainRun : s.mainRun = true

/-- How often `m_fmain` is to be called for an event. -/
def Event.mainCalls (cfg : Config) (set : Bool) (e : Event) : Nat :=
  if e.fd = cfg.sockmain ∧ cfg.listening = false ∧ set = true then 1 else 0

/-- The outcome goes with the event, and when its first scan finds an idle worker, `m_fmain` is
called once for it if it is one of a main socket that the user connected. -/
structure Handled.Fits (cfg : Config) (set : Bool) (x : Handled) : Prop where
  accepted : x.outcome = .accepted →
    x.ev.fd = cfg.sockmain ∧ cfg.listening = true ∧ x.ev.events.epollin = true
  ignored : x.outcome = .ignored →
    x.ev.fd = cfg.sockmain ∧ cfg.listening = true ∧ x.ev.events.epollin = false
  closed : x.outcome = .closed → ¬ (x.ev.fd = cfg.sockmain ∧ cfg.listening = true)
  dispatched : ∀ i, x.outcome = .dispatched i →
    ¬ (x.ev.fd = cfg.sockmain ∧ cfg.listening = true) ∧ i < cfg.threadCount
  calls : x.rescans = 0 → x.calls = x.ev.mainCalls cfg set

/-- The points behind the main loop. -/
def MainPc.past : MainPc → Bool
  | .stopWork | .exitScan _ | .exitStore _ | .done => true
  | _ => false

/-- `m_main_run` has been cleared: by `destroy`, because the main socket has been closed, or at a
hangup of the listening socket. -/
def Book.Ended (cfg : Config) (b : Book) : Prop :=
  b.stopped = true ∨ ∃ x ∈ b.handled, x.ev.fd = cfg.sockmain ∧
    (x.outcome = .closed ∨ x.outcome = .ignored ∧ x.ev.events.hangup = true)

/-- The calls of `m_fmain` that belong to the point of `tst_main`. -/
def MainPc.calls (cfg : Config) (set : Bool) : MainPc → Nat
  | .client e | .lookup e _ => e.mainCalls cfg set
  | .scan d _ | .setRun d _ | .setSocket d _ => d.ev.mainCalls cfg set
  | _ => 0

/-- An event that is handled as one of a client is not one of the listening socket. -/
def MainPc.Handles (cfg : Config) : MainPc → Prop
  | .client e | .lookup e _ => ¬ (e.fd = cfg.sockmain ∧ cfg.listening = true)
  | .scan d _ => ¬ (d.ev.fd = cfg.sockmain ∧ cfg.listening = true)
  | .setRun d i | .setSocket d i =>
    ¬ (d.ev.fd = cfg.sockmain ∧ cfg.listening = true) ∧ i < cfg.threadCount
  | _ => True

/-- Every fetched event has been handled once, is in hand, or waits. -/
structure Once (cfg : Config) (set : Bool) (b : Book) : Prop where
  fetched : b.pool.main ≠ .crashed → b.fetched = b.handled.map (·.ev) ++ b.pool.events
  handled : ∀ x ∈ b.handled, x.Fits cfg set
  calls : b.pool.main ≠ .crashed → b.rescans = 0 → b.calls = b.pool.main.calls cfg set
  main : b.pool.main.Handles cfg
  closing : ∀ cl e, b.pool.main = .closing cl (.event e) →
    ∃ x ∈ b.handled, x.ev = e ∧ x.outcome = .closed
  past : b.pool.main.past = true → b.pool.mainRun = false
  ended : b.pool.mainRun = false → b.Ended cfg

section Steps

variable {cfg : Config} {set : Bool} {b : Book} {s : State} {a : Action}

theorem Once.start (hs : s.Fresh) : Once cfg set { pool := s } where
  fetched _ := by simp [State.events, hs.main, hs.batch, MainPc.hand]
  handled := by simp
  calls _ _ := by simp [hs.main, MainPc.calls]
  main := by simp [hs.main, MainPc.Handles]
  closing := by simp [hs.main]
  past := by simp [hs.main, MainPc.past]
  ended := by simp [hs.mainRun]

/-- A step that counts no event off. -/
theorem Once.move (h : Once cfg set b)
    (hevents : s.main ≠ .crashed → b.pool.main ≠ .crashed ∧ s.events = b.pool.events)
    (hcalls : s.main ≠ .crashed → s.main.calls cfg set = b.pool.main.calls cfg set)
    (hmain : s.main.Handles cfg)
    (hclosing : ∀ cl e, s.main = .closing cl (.event e) → ∃ cl', b.pool.main = .closing cl' (.event e))
    (hrun : s.mainRun = b.pool.mainRun) (hpast : s.main.past = true → b.pool.mainRun = false) :
    Once cfg set { b with pool := s } where
  fetched hcrash := by
    obtain ⟨hcrash', heq⟩ := hevents hcrash
    dsimp only
    rw [heq]
    exact h.fetched hcrash'
  handled := h.handled
  calls hcrash hzero := (h.calls (hevents hcrash).1 hzero).trans (hcalls hcrash).symm
  main := hmain
  closing cl e hcl := by
    obtain ⟨cl', hcl'⟩ := hclosing cl e hcl
    exact h.closing cl' e hcl'
  past hp := hrun.trans (hpast hp)
  ended hend := h.ended (hrun ▸ hend)

/-- `tst_main` goes from the point `pc` to the point `pc'`, with the same event in hand. -/
theorem Once.walk (h : Once cfg set b) {pc pc' : MainPc} (hpc : b.pool.main = pc)
    (hpc' : s.main = pc') (hbatch : s.batch = b.pool.batch) (hrun : s.mainRun = b.pool.mainRun)
    (hhand : pc'.hand = pc.hand) (hcalls : pc'.calls cfg set = pc.calls cfg set)
    (hpast : pc'.past = pc.past) (hcrash : pc ≠ .crashed) (hmain : pc'.Handles cfg)
    (hclosing : ∀ cl e, pc' = .closing cl (.event e) → ∃ cl', pc = .closing cl' (.event e)) :
    Once cfg set { b with pool := s } := by
  subst hpc
  subst hpc'
  refine h.move (fun _ => ⟨hcrash, ?_⟩) (fun _ => hcalls) hmain hclosing hrun fun hp => ?_
  · rw [State.events, State.events, hhand, hbatch]
  · exact h.past (hpast ▸ hp)

/-- A step that counts the event in hand off. -/
theorem Once.done (h : Once cfg set b) {e : Event} {o : Outcome}
    (hcrash : b.pool.main ≠ .crashed) (hevents : b.pool.events = e :: s.events)
    (hfits : Handled.Fits cfg set ⟨e, o, b.calls, b.rescans⟩) (hcalls : s.main.calls cfg set = 0)
    (hmain : s.main.Handles cfg)
    (hclosing : ∀ cl e', s.main = .closing cl (.event e') → e = e' ∧ o = .closed)
    (hpast : s.main.past = true → s.mainRun = false)
    (hended : s.mainRun = false → b.pool.mainRun = false ∨
      e.fd = cfg.sockmain ∧ o = .ignored ∧ e.events.hangup = true) :
    Once cfg set (b.done e o s) where
  fetched _ := by
    have hfetched := h.fetched hcrash
    rw [hevents] at hfetched
    simpa [Book.done] using hfetched
  handled x hx := by
    obtain hold | hnew := List.mem_append.mp hx
    · exact h.handled x hold
    · rw [List.mem_singleton.mp hnew]
      exact hfits
  calls _ _ := hcalls.symm
  main := hmain
  closing cl e' hcl := by
    obtain ⟨rfl, rfl⟩ := hclosing cl e' hcl
    exact ⟨_, List.mem_append_right _ (List.mem_singleton_self _), rfl, rfl⟩
  past := hpast
  ended hend := by
    obtain hold | ⟨hfd, hignored, hhangup⟩ := hended hend
    · obtain hstop | ⟨x, hx, hfd⟩ := h.ended hold
      · exact .inl hstop
      · exact .inr ⟨x, List.mem_append_left _ hx, hfd⟩
    · exact .inr ⟨_, List.mem_append_right _ (List.mem_singleton_self _), hfd,
        .inr ⟨hignored, hhangup⟩⟩

/-- `epoll_wait` and the event that is taken first. -/
theorem Once.epollWait (h : Once cfg set b) {evs : List (Fd × Events)} {s₁ : State}
    (hpc : b.pool.main = .loop) (hbatch : b.pool.batch = [])
    (hdel : b.pool.deliver cfg evs = some s₁) :
    Once cfg set { b with pool := s₁.takeEvent, fetched := b.fetched ++ s₁.takeEvent.events } := by
  have hfetched := h.fetched (by simp [hpc])
  simp only [State.events, hpc, MainPc.hand, hbatch, List.append_nil] at hfetched
  have hcalls : b.rescans = 0 → b.calls = 0 :=
    fun hzero => (h.calls (by simp [hpc]) hzero).trans (by rw [hpc]; rfl)
  obtain ⟨batch, reg, rfl⟩ := deliver_frame hdel
  obtain ⟨-, ht⟩ | ⟨e, rest, -, ht⟩ := takeEvent_cases { b.pool with batch := batch, reg := reg }
  · rw [ht]
    exact ⟨fun _ => by rw [hfetched], h.handled, h.calls, h.main, h.closing, h.past, h.ended⟩
  · rw [ht]
    exact ⟨fun _ => by rw [hfetched], h.handled, fun _ => hcalls, trivial, fun _ _ hcl => by simp at hcl,
      fun hp => by simp [MainPc.past] at hp, h.ended⟩

/-- The inputs with which `tst_main` goes on to handle an event as one of a client. -/
theorem toClient_input {s' : State} {inp : MainInput} {e : Event} (hpc : s.main = .event e)
    (hclient : ¬ (e.fd = cfg.sockmain ∧ cfg.listening = true))
    (h : mainStep cfg s inp = some s') :
    inp = .go ∨ ∃ next, inp = .fmain next ∧ e.fd = cfg.sockmain := by
  have hevent : eventStep cfg s e inp = some s' := by simpa only [mainStep, hpc] using h
  revert hevent
  fun_cases eventStep cfg s e inp <;> intro hevent <;> try cases hevent
  · next hmain _ _ => exact absurd hmain hclient
  · next hmain _ => exact absurd hmain hclient
  · next hfd => exact .inr ⟨_, rfl, hfd⟩
  · next hfd _ => exact .inr ⟨_, rfl, hfd⟩
  · exact .inl rfl

/-- `accept()` is called for an event with `EPOLLIN`. -/
theorem accept_input {s' : State} {inp : MainInput} {r : Option Fd} {e : Event}
    (hpc : s.main = .event e) (hinp : inp = .accept r) (h : mainStep cfg s inp = some s') :
    e.events.epollin = true := by
  have hevent : eventStep cfg s e inp = some s' := by simpa only [mainStep, hpc] using h
  revert hevent
  fun_cases eventStep cfg s e inp <;> intro hevent <;> cases hinp
  · assumption
  · cases hevent
  · cases hevent
  · cases hevent

theorem once_toClient (h : Once cfg set b) {inp : MainInput} {e : Event}
    (hok : mainFuncOk cfg set b.pool (.main inp) = true) (hpc : b.pool.main = .event e)
    (hclient : ¬ (e.fd = cfg.sockmain ∧ cfg.listening = true))
    (hinp : inp = .go ∨ ∃ next, inp = .fmain next ∧ e.fd = cfg.sockmain) :
    Once cfg set (b.noteMain cfg inp { b.pool with main := .client e }) := by
  have hlisten : e.fd = cfg.sockmain → cfg.listening = false :=
    fun hfd => Bool.eq_false_iff.mpr fun hl => hclient ⟨hfd, hl⟩
  have hzero : b.rescans = 0 → b.calls = 0 :=
    fun hr => (h.calls (by simp [hpc]) hr).trans (by rw [hpc]; rfl)
  obtain rfl | ⟨next, rfl, hfd⟩ := hinp
  · simp only [Book.noteMain, hpc, if_neg hclient]
    refine h.move (fun _ => ⟨by simp [hpc], by simp [State.events, hpc, MainPc.hand]⟩) (fun _ => ?_)
      hclient (by simp) rfl (by simp [MainPc.past])
    -- `m_fmain` is not called for a client, nor when it is not set
    have hnone : e.mainCalls cfg set = 0 := by
      rw [Event.mainCalls, if_neg]
      rintro ⟨hfd, hl, hset⟩
      simp [mainFuncOk, hpc, hfd, hl, hset] at hok
    simp only [MainPc.calls, hpc, hnone]
  · have hone : e.mainCalls cfg set = 1 := by
      rw [Event.mainCalls, if_pos]
      simp [mainFuncOk, hpc, hfd, hlisten hfd] at hok
      exact ⟨hfd, hlisten hfd, hok.1⟩
    simp only [Book.noteMain, hpc]
    refine ⟨fun _ => ?_, h.handled, fun _ hr => ?_, hclient, by simp, by simp [MainPc.past], h.ended⟩
    · have hfetched := h.fetched (by simp [hpc])
      simpa [State.events, hpc, MainPc.hand] using hfetched
    · simp only [MainPc.calls, hone, hzero hr]

theorem mainCalls_listening (hlisten : cfg.listening = true) (e : Event) :
    e.mainCalls cfg set = 0 := by
  simp [Event.mainCalls, hlisten]

/-- An event of the listening socket is counted off. -/
theorem once_listening (h : Once cfg set b) {e : Event} {o : Outcome} (hpc : b.pool.main = .event e)
    (hlisten : cfg.listening = true) (hevents : s.events = b.pool.batch)
    (hfits : o = .accepted ∧ e.fd = cfg.sockmain ∧ e.events.epollin = true ∨
      o = .ignored ∧ e.fd = cfg.sockmain ∧ e.events.epollin = false)
    (hcalls : s.main.calls cfg set = 0) (hmain : s.main.Handles cfg)
    (hclosing : ∀ cl e', s.main ≠ .closing cl (.event e')) (hpast : s.main.past = false)
    (hended : s.mainRun = false → b.pool.mainRun = false ∨
      e.fd = cfg.sockmain ∧ o = .ignored ∧ e.events.hangup = true) :
    Once cfg set (b.done e o s) := by
  have hnone : b.rescans = 0 → b.calls = e.mainCalls cfg set := by
    intro hr
    rw [h.calls (by simp [hpc]) hr, hpc, mainCalls_listening hlisten]
    rfl
  refine h.done (by simp [hpc]) (by rw [hevents, State.events, hpc]; rfl) ?_ hcalls hmain
    (fun cl e' hcl => absurd hcl (hclosing cl e')) (fun hp => ?_) hended
  · obtain ⟨rfl, hfd, hin⟩ | ⟨rfl, hfd, hin⟩ := hfits
    · exact ⟨fun _ => ⟨hfd, hlisten, hin⟩, by simp, by simp, by simp, hnone⟩
    · exact ⟨by simp, fun _ => ⟨hfd, hlisten, hin⟩, by simp, by simp, hnone⟩
  · rw [hpast] at hp
    cases hp

/-- Every step of `tst_main` keeps the record. -/
theorem mainStep_once {inp : MainInput} (h : Once cfg set b)
    (hok : mainFuncOk cfg set b.pool (.main inp) = true)
    (hstep : mainStep cfg b.pool inp = some s) : Once cfg set (b.noteMain cfg inp s) := by
  have hmain := h.main
  cases mainStep_cases hstep with
  | epollWait hpc _ hbatch hdel =>
    simp only [Book.noteMain, hpc]
    exact h.epollWait hpc hbatch hdel
  | toClient hpc hclient =>
    exact once_toClient h hok hpc hclient (toClient_input hpc hclient hstep)
  | acceptError hpc hfd hlisten hin =>
    simp only [Book.noteMain, hpc]
    exact once_listening h hpc hlisten rfl (.inl ⟨rfl, hfd, hin⟩) rfl trivial (by simp) rfl .inl
  | accept hpc hfd hlisten =>
    have hin := accept_input hpc rfl hstep
    simp only [Book.noteMain, hpc]
    exact once_listening h hpc hlisten rfl (.inl ⟨rfl, hfd, hin⟩) rfl trivial (by simp) rfl .inl
  | listenOther hpc hfd hlisten hin =>
    simp only [Book.noteMain, hpc, if_pos (And.intro hfd hlisten)]
    refine once_listening h hpc hlisten rfl (.inr ⟨rfl, hfd, hin⟩) rfl trivial (by simp) rfl ?_
    intro hend
    obtain hend | hend := Bool.and_eq_false_iff.mp hend
    · exact .inl hend
    · exact .inr ⟨hfd, rfl, by simpa using hend⟩
  | reconnected hpc hfd hlisten =>
    simp [mainFuncOk, hpc, hfd, hlisten] at hok
    exact absurd hok.2 (by decide)
  | clientClose hpc =>
    rw [hpc] at hmain
    have hcalls := h.calls (by simp [hpc])
    simp only [hpc, MainPc.calls] at hcalls
    simp only [Book.noteMain, hpc]
    exact h.done (by simp [hpc]) (by simp [State.events, hpc, MainPc.hand])
      ⟨by simp, by simp, fun _ => hmain, by simp, hcalls⟩ rfl trivial (by simp)
      (by simp [MainPc.past]) .inl
  | @setSocket d i hpc =>
    rw [hpc] at hmain
    have hcalls := h.calls (by simp [hpc])
    simp only [hpc, MainPc.calls] at hcalls
    simp only [Book.noteMain, hpc]
    refine h.done (by simp [hpc]) (by simp [State.events, hpc, MainPc.hand])
      ⟨by simp, by simp, by simp, fun j hj => ?_, hcalls⟩ rfl trivial (by simp)
      (by simp [MainPc.past]) .inl
    obtain rfl := Outcome.dispatched.inj hj
    exact hmain
  | scanEnd hpc =>
    -- the event goes back to the batch
    have hfetched := h.fetched (by simp [hpc])
    simp only [Book.noteMain, hpc]
    refine ⟨fun _ => ?_, h.handled, by simp, trivial, by simp, by simp [MainPc.past], h.ended⟩
    simpa [State.events, hpc, MainPc.hand] using hfetched
  | @closing cl cl' after s₁ hpc hclose =>
    obtain ⟨rfl, -⟩ := closeStep_rest hclose
    simp only [Book.noteMain, hpc]
    refine h.walk hpc rfl (closeStep_batch ..) (closeStep_mainRun ..) rfl rfl rfl (by simp) trivial ?_
    intro cl₁ e hcl
    obtain ⟨-, rfl⟩ := MainPc.closing.inj hcl
    exact ⟨cl, rfl⟩
  | @closed cl after s₁ hpc hclose =>
    obtain ⟨rfl, -⟩ := closeStep_done hclose
    simp only [Book.noteMain, hpc]
    cases after with
    | add c | refused c =>
      exact h.walk hpc rfl (closeStep_batch ..) (closeStep_mainRun ..) rfl rfl rfl (by simp) trivial
        (by simp [State.afterClose])
    | event e =>
      obtain ⟨x, hx, rfl, hclosed⟩ := h.closing cl e hpc
      rw [State.afterClose]
      split
      · next hfd =>
        -- the main socket has been closed
        refine ⟨fun _ => ?_, h.handled, fun _ hr => ?_, trivial, by simp, fun _ => rfl,
          fun _ => .inr ⟨x, hx, hfd, .inl hclosed⟩⟩
        · have hfetched := h.fetched (by simp [hpc])
          simpa [State.events, hpc, MainPc.hand] using hfetched
        · have hcalls := h.calls (by simp [hpc]) hr
          rwa [hpc] at hcalls
      · exact h.walk hpc rfl (closeStep_batch ..) (closeStep_mainRun ..) rfl rfl rfl (by simp) trivial
          (by simp)
  | loopStop hpc hrun =>
    simp only [Book.noteMain, hpc]
    exact h.move (fun _ => ⟨by simp [hpc], by simp [State.events, hpc, MainPc.hand]⟩)
      (fun _ => by simp [hpc, MainPc.calls]) trivial (by simp) rfl fun _ => hrun
  | loopEvent hpc hrun hbatch =>
    simp only [Book.noteMain, hpc]
    exact h.move (fun _ => ⟨by simp [hpc], by simp [State.events, hpc, hbatch, MainPc.hand]⟩)
      (fun _ => by simp [hpc, MainPc.calls]) trivial (by simp) rfl (by simp [MainPc.past])
  | remnant hpc | unlisted hpc | add hpc | fconnected hpc | refuse hpc | register hpc
  | rearmListen hpc =>
    simp only [Book.noteMain, hpc]
    exact h.walk hpc rfl rfl rfl rfl rfl rfl (by simp) trivial (by simp)
  | clientKeep hpc | lookup hpc | scanBusy hpc | setRun hpc =>
    rw [hpc] at hmain
    simp only [Book.noteMain, hpc]
    exact h.walk hpc rfl rfl rfl rfl rfl rfl (by simp) hmain (by simp)
  | lookupNull hpc =>
    simp only [Book.noteMain, hpc]
    exact h.move (fun hcrash => absurd rfl hcrash) (fun hcrash => absurd rfl hcrash) trivial (by simp)
      rfl (by simp [MainPc.past])
  | scanFree hpc hi =>
    rw [hpc] at hmain
    simp only [Book.noteMain, hpc]
    exact h.walk hpc rfl rfl rfl rfl rfl rfl (by simp) ⟨hmain, hi⟩ (by simp)
  | stopWork hpc | exitScanFree hpc | exitScanBusy hpc | exitScanEnd hpc | exitStore hpc =>
    simp only [Book.noteMain, hpc]
    exact h.walk hpc rfl rfl rfl rfl rfl rfl (by simp) trivial (by simp)

/-- A step of another thread. -/
theorem Once.others (h : Once cfg set b) (hmain : s.main = b.pool.main)
    (hbatch : s.batch = b.pool.batch) (hrun : s.mainRun = b.pool.mainRun) :
    Once cfg set { b with pool := s } := by
  refine h.move (fun hcrash => ⟨hmain ▸ hcrash, by rw [State.events, hmain, hbatch]; rfl⟩)
    (fun _ => by rw [hmain]) (hmain ▸ h.main) (fun cl e hcl => ⟨cl, hmain ▸ hcl⟩) hrun ?_
  rw [hmain]
  exact h.past

theorem workerStep_main {s s' : State} {i : Nat} {inp : WorkerInput} (h : WorkerStep s i inp s') :
    s'.main = s.main ∧ s'.batch = s.batch ∧ s'.mainRun = s.mainRun := by
  cases h with
  | @closing cl _ _ s₁ hpc hclose | @closed cl _ s₁ hpc hclose =>
    obtain rfl : s₁ = (s.closeStep cl).1 := by rw [hclose]
    exact ⟨closeStep_main .., closeStep_batch .., closeStep_mainRun ..⟩
  | _ => exact ⟨rfl, rfl, rfl⟩

theorem step_once {b' : Book} (h : Once cfg set b) (hok : mainFuncOk cfg set b.pool a = true)
    (hstep : b.step cfg a = some b') : Once cfg set b' := by
  obtain ⟨s, hs, rfl⟩ := Option.map_eq_some_iff.mp hstep
  revert hs
  fun_cases Pool.step cfg b.pool a <;> intro hs <;> try cases hs
  · exact mainStep_once h hok hs
  · obtain ⟨hmain, hbatch, hrun⟩ := workerStep_main (workerStep_cases hs)
    exact h.others hmain hbatch hrun
  · split
    · exact h.others rfl rfl rfl
    · exact h.others rfl rfl rfl
  · exact h.others rfl rfl rfl
  · next cl _ s₁ rest hclose =>
    obtain rfl : s₁ = (b.pool.closeStep cl).1 := by rw [hclose]
    exact h.others (closeStep_main ..) (closeStep_batch ..) (closeStep_mainRun ..)
  · exact h.others rfl rfl rfl
  · exact ⟨h.fetched, h.handled, h.calls, h.main, h.closing, fun _ => rfl, fun _ => .inl rfl⟩

end Steps

/-- In every run in which `m_fmain` answers less than `tst_reconnected`: as long as no event has
been looked up without an entry, the events fetched are those handled, each once and in the order in
which they are taken, then the one in hand, then those that wait; every outcome goes with its event;
and `tst_main` leaves its loop only when `m_main_run` has been cleared. -/
theorem handled_once (cfg : Config) (set : Bool) {s : State} {as : List Action} {b : Book}
    (hs : s.Fresh)
    (h : Exec (Book.step cfg) (fun b a => mainFuncOk cfg set b.pool a = true) { pool := s } as b) :
    (b.pool.main ≠ .crashed → b.fetched = b.handled.map (·.ev) ++ b.pool.events) ∧
      (∀ x ∈ b.handled, x.Fits cfg set) ∧ (b.pool.main.past = true → b.Ended cfg) := by
  have hinv : Once cfg set b :=
    h.invariant (fun _ _ _ hok hb hstep => step_once hb hok hstep) (.start hs)
  exact ⟨hinv.fetched, hinv.handled, fun hpast => hinv.ended (hinv.past hpast)⟩

theorem fresh_init (cfg : Config) : (State.init cfg).Fresh := by
  rw [State.init]
  split
  · exact ⟨rfl, rfl, rfl⟩
  · exact ⟨rfl, rfl, rfl⟩

/-- A pool with one worker whose main socket 9 has been connected by the user. -/
def Config.client : Config where
  threadCount := 1
  sockmain := 9
  listening := false
  sockmain_pos := by decide

/-- `tst_main` takes an event of its main socket and comes to the scan. -/
def mainRound : List Action :=
  [.main (.fmain .suspend), .main (.ioctl false 1), .main .go]

/-- The event is given to worker 0. -/
def mainAssign : List Action := [.main .go, .main .go, .main .go]

theorem handled_once_client :
    ∃ b, Exec (Book.step .client) (fun b a => mainFuncOk .client true b.pool a = true)
        { pool := .init .client }
        (.main (.epollWait [(9, { epollin := true })]) :: mainRound ++ mainAssign) b ∧
      b.fetched = b.handled.map (·.ev) ∧ ∃ e, b.handled = [⟨e, .dispatched 0, 1, 0⟩] := by
  have hrun : (check (Book.step .client) (fun b a => mainFuncOk .client true b.pool a = true)
      { pool := .init .client }
      (.main (.epollWait [(9, { epollin := true })]) :: mainRound ++ mainAssign)).any
      (fun b => decide (b.pool.main = .loop ∧ b.pool.batch = [] ∧
        b.handled = [⟨⟨9, { epollin := true }, .conn 0⟩, .dispatched 0, 1, 0⟩])) = true := by decide
  obtain ⟨b, hexec, hb⟩ := Exec.exists_of_check hrun
  obtain ⟨hmain, hbatch, hhandled⟩ := of_decide_eq_true hb
  have hfetched := (handled_once .client true (fresh_init .client) hexec).1 (by simp [hmain])
  refine ⟨b, hexec, ?_, _, hhandled⟩
  simpa [State.events, hmain, hbatch, MainPc.hand] using hfetched

/-- A hangup of the listening socket comes before an event of a client in the batch: the main loop
ends, and the event of the client is dropped. -/
theorem events_dropped :
    ¬ ∀ (cfg : Config) (set : Bool) (s : State) (as : List Action) (b : Book), s.Fresh →
      Exec (Book.step cfg) (fun b a => mainFuncOk cfg set b.pool a = true) { pool := s } as b →
      b.pool.main ≠ .crashed →
      b.pool.main = .done ∨ b.pool.main = .loop ∧ b.pool.batch = [] →
      b.fetched = b.handled.map (·.ev) := by
  intro h
  have hrun : (check (Book.step .server) (fun b a => mainFuncOk .server false b.pool a = true)
      { pool := .init .server } (acceptRun 5 .suspend ++
        [.main (.epollWait [(5, { epollin := true }), (3, { epollhup := true })])] ++
        List.replicate 8 (.main .go))).any
      (fun b => decide (b.pool.main = .done ∧ b.fetched.length = 3 ∧ b.handled.length = 2)) =
        true := by decide
  obtain ⟨b, hexec, hb⟩ := Exec.exists_of_check hrun
  obtain ⟨hmain, hfetched, hhandled⟩ := of_decide_eq_true hb
  have heq := h .server false _ _ b (fresh_init .server) hexec (by simp [hmain]) (.inl hmain)
  have hlen := congrArg List.length heq
  rw [List.length_map, hfetched, hhandled] at hlen
  exact absurd hlen (by decide)

/-- The only worker is in its idle branch when the event of the main socket is scanned for: the loop
begins again with the event, and `m_fmain` is called for it a second time. -/
theorem fmain_repeated :
    ∃ b e, Exec (Book.step .client) (fun b a => mainFuncOk .client true b.pool a = true)
        { pool := .init .client }
        ([.worker 0 .go, .worker 0 .go, .worker 0 (.waited .timedOut), .worker 0 .go, .worker 0 .go,
            .worker 0 .go, .main (.epollWait [(9, { epollin := true })])] ++ mainRound ++
          [.main .go, .main .go, .worker 0 (.idle .suspend), .worker 0 .go, .main .go] ++
          mainRound ++ mainAssign) b ∧
      b.handled = [⟨e, .dispatched 0, 2, 1⟩] := by
  have hrun : (check (Book.step .client) (fun b a => mainFuncOk .client true b.pool a = true)
      { pool := .init .client }
      ([.worker 0 .go, .worker 0 .go, .worker 0 (.waited .timedOut), .worker 0 .go, .worker 0 .go,
          .worker 0 .go, .main (.epollWait [(9, { epollin := true })])] ++ mainRound ++
        [.main .go, .main .go, .worker 0 (.idle .suspend), .worker 0 .go, .main .go] ++
        mainRound ++ mainAssign)).any
      (fun b => decide (b.handled =
        [⟨⟨9, { epollin := true }, .conn 0⟩, .dispatched 0, 2, 1⟩])) = true := by decide
  obtain ⟨b, hexec, hb⟩ := Exec.exists_of_check hrun
  exact ⟨b, _, hexec, of_decide_eq_true hb⟩

end Tst.Pool
