import Tst.Lib.Execution
import Tst.Pool.Step

/-!
# Events and their connections

An event names a descriptor, and `tst_main` looks the descriptor up in `m_connect` when
it comes to the event. Between the two the entry can go, or the descriptor can come back
with a newer connection.

## Main definitions

- `deliverOk` — no entry is removed under a fetched event, and no event is fetched for a
  descriptor without an entry
- `Delivery` — the entry of every fetched event is the one of its connection

## Main results

- `dispatch_own_connection` — under `deliverOk` every event is dispatched to the
  connection on which it occurred
- `dispatch_missing_or_newer` — in general it is not
-/

namespace Tst.Pool

open Execution

/-- The event that `tst_main` has in hand and may still dispatch. -/
def MainPc.hand : MainPc → List Event
  | .event e | .client e | .lookup e _ => [e]
  | .scan d _ | .setRun d _ | .setSocket d _ => [d.ev]
  | _ => []

/-- The connection that `tst_main` is about to enter in `m_connect`, and whether the
search for an old entry is behind it. -/
def MainPc.adding : MainPc → Option (Conn × Bool)
  | .accepted c => some (c, false)
  | .closing cl (.add c) => some (c, cl.phase ≠ .erase)
  | .add c => some (c, true)
  | _ => none

/-- The connection that `tst_main` adds when a call of `closesocket` has returned. -/
def AfterClose.adding : AfterClose → Option (Conn × Bool)
  | .add c => some (c, true)
  | _ => none

/-- The events fetched and not yet dispatched. -/
def State.events (s : State) : List Event := s.main.hand ++ s.batch

/-- The descriptor that an action removes from `m_connect`. -/
def State.erases (s : State) : Action → Option Fd
  | .main _ => match s.main with
    | .closing ⟨sd, .erase⟩ _ => some sd
    | _ => none
  | .worker i _ => match (s.slot i).pc with
    | .closing ⟨sd, .erase⟩ _ => some sd
    | _ => none
  | .othersStep k => match s.others k with
    | some ⟨sd, .erase⟩ => some sd
    | _ => none
  | _ => none

/-- The descriptor is in `m_connect`, or is the listening socket. -/
def State.Listed (s : State) (fd : Fd) : Prop :=
  (s.connect fd).isSome ∨ s.owner fd = some .listen

/-- The events that an action fetches. -/
def Action.fetched : Action → List (Fd × Events)
  | .main (.epollWait evs) => evs
  | _ => []

/-- No entry of `m_connect` is removed while an event for it waits, and `epoll_wait`
reports no event for a descriptor without an entry. -/
structure deliverOk (s : State) (a : Action) : Prop where
  erase : ∀ fd ∈ s.erases a, ∀ e ∈ s.events, e.fd ≠ fd
  wait : ∀ ev ∈ a.fetched, s.Listed ev.1

instance (s : State) (fd : Fd) : Decidable (s.Listed fd) := inferInstanceAs (Decidable (_ ∨ _))

instance (s : State) (a : Action) : Decidable (deliverOk s a) :=
  decidable_of_iff ((∀ fd ∈ s.erases a, ∀ e ∈ s.events, e.fd ≠ fd) ∧
    ∀ ev ∈ a.fetched, s.Listed ev.1) ⟨fun h => ⟨h.1, h.2⟩, fun h => ⟨h.erase, h.wait⟩⟩

/-- The source of a fetched event: the listening socket, or the connection that
`m_connect` holds for the descriptor. -/
def State.Sourced (cfg : Config) (s : State) (e : Event) : Prop :=
  match e.src with
  | .listen => e.fd = cfg.sockmain ∧ cfg.listening = true
  | .conn c => s.connect e.fd = some c

/-- An event handled as one of a client is not one of the listening socket, and is
dispatched to the connection on which it occurred; an old entry is removed under the
descriptor just accepted. -/
def MainPc.DispatchOk (cfg : Config) (sd : Conn → Fd) : MainPc → Prop
  | .client e | .lookup e _ => ¬ (e.fd = cfg.sockmain ∧ cfg.listening = true)
  | .scan d _ | .setRun d _ | .setSocket d _ => d.ev.src = .conn d.conn
  | .closing cl (.add c) => cl.sd = sd c
  | _ => True

structure Delivery (cfg : Config) (s : State) : Prop where
  sourced : ∀ e ∈ s.events, s.Sourced cfg e
  /-- an entry belongs to the owner of its descriptor, unless `accept` has just returned it -/
  entry : ∀ fd c, s.owner fd = some (.conn c) → s.connect fd = none ∨ s.connect fd = some c ∨
    s.main.adding = some (c, false) ∧ s.sd c = fd
  listen : ∀ fd, s.owner fd = some .listen → fd = cfg.sockmain ∧ cfg.listening = true
  main : s.main.DispatchOk cfg s.sd
  addingOwner : ∀ c b, s.main.adding = some (c, b) →
    s.owner (s.sd c) = none ∨ s.owner (s.sd c) = some (.conn c)
  addingEntry : ∀ c, s.main.adding = some (c, true) → s.connect (s.sd c) = none

section Invariant

variable {cfg : Config} {s s' : State}

theorem Delivery.init (cfg : Config) : Delivery cfg (.init cfg) := by
  by_cases hl : cfg.listening = true
  · simp only [State.init, hl, if_true]
    constructor <;>
      simp [State.events, MainPc.hand, MainPc.adding, MainPc.DispatchOk, Function.update_apply, hl]
  · simp only [State.init, hl]
    constructor <;>
      simp [State.events, MainPc.hand, MainPc.adding, MainPc.DispatchOk, Function.update_apply, hl]

/-- A step that moves no entry, owner or event. -/
theorem Delivery.move (h : Delivery cfg s) (hconnect : s'.connect = s.connect)
    (howner : s'.owner = s.owner) (hsd : s'.sd = s.sd)
    (hevents : ∀ e ∈ s'.events, e ∈ s.events) (hadding : s'.main.adding = s.main.adding)
    (hmain : s'.main.DispatchOk cfg s'.sd) : Delivery cfg s' where
  sourced e he := by
    have := h.sourced e (hevents e he)
    simpa only [State.Sourced, hconnect] using this
  entry := by simpa only [hconnect, howner, hsd, hadding] using h.entry
  listen := by simpa only [howner] using h.listen
  main := hmain
  addingOwner := by simpa only [howner, hsd, hadding] using h.addingOwner
  addingEntry := by simpa only [hconnect, hsd, hadding] using h.addingEntry

/-- The same for a step of another thread. -/
theorem Delivery.others (h : Delivery cfg s) (hconnect : s'.connect = s.connect)
    (howner : s'.owner = s.owner) (hsd : s'.sd = s.sd) (hmain : s'.main = s.main)
    (hbatch : s'.batch = s.batch) : Delivery cfg s' := by
  refine h.move hconnect howner hsd ?_ (by rw [hmain]) ?_
  · simp only [State.events, hmain, hbatch, imp_self, implies_true]
  · rw [hmain, hsd]
    exact h.main

/-- A step of `closesocket`, apart from the entry that `tst_main` is about to replace. -/
theorem Delivery.closeStep (h : Delivery cfg s) {cl : Closing}
    (hok : cl.phase = .erase → ∀ e ∈ s.events, e.fd ≠ cl.sd) :
    Delivery cfg (s.closeStep cl).1 := by
  obtain ⟨sd, phase⟩ := cl
  cases phase with
  | erase =>
    refine ⟨fun e he => ?_, fun fd c howner => ?_, h.listen, h.main, h.addingOwner,
      fun c hc => ?_⟩
    · have hne := hok rfl e he
      have := h.sourced e he
      simpa only [State.Sourced, State.closeStep, State.setConnect, Function.update_of_ne hne]
        using this
    · simp only [State.closeStep, State.setConnect, Function.update_apply]
      split
      · exact .inl rfl
      · exact h.entry fd c howner
    · have := h.addingEntry c hc
      simp only [State.closeStep, State.setConnect, Function.update_apply]
      split
      · rfl
      · exact this
  | del => exact h.others rfl rfl rfl rfl rfl
  | close =>
    have howner : ∀ fd o, (Function.update s.owner sd none) fd = some o → s.owner fd = some o := by
      intro fd o ho
      rw [Function.update_apply] at ho
      split at ho
      · simp at ho
      · exact ho
    refine ⟨h.sourced, fun fd c ho => h.entry fd c (howner fd _ ho),
      fun fd ho => h.listen fd (howner fd _ ho), h.main, fun c b hc => ?_, h.addingEntry⟩
    simp only [State.closeStep, State.setOwner, State.setReg, Function.update_apply]
    split
    · exact .inl rfl
    · exact h.addingOwner c b hc

/-- `tst_main` is sure that the descriptor it has accepted has no entry. -/
theorem Delivery.searched (h : Delivery cfg s) {c : Conn} {pc : MainPc}
    (hc : s.main.adding = some (c, false)) (hnone : s.connect (s.sd c) = none)
    (hpc : pc.adding = some (c, true)) (hhand : pc.hand = [])
    (hmain : pc.DispatchOk cfg s.sd) : Delivery cfg { s with main := pc } where
  sourced e he := by
    refine h.sourced e ?_
    simp only [State.events, hhand, List.nil_append] at he
    exact List.mem_append_right _ he
  entry fd c' howner := by
    rcases h.entry fd c' howner with hentry | hentry | ⟨hadd, hfd⟩
    · exact .inl hentry
    · exact .inr (.inl hentry)
    · obtain rfl : c = c' := by simpa [hc] using hadd
      exact .inl (hfd ▸ hnone)
  listen := h.listen
  main := hmain
  addingOwner c' b hadd := by
    obtain ⟨rfl, -⟩ : c = c' ∧ true = b := by simpa [hpc] using hadd
    exact h.addingOwner c false hc
  addingEntry c' hadd := by
    obtain rfl : c = c' := by simpa [hpc] using hadd
    exact hnone

/-- A step of a call of `closesocket` that `tst_main` makes. -/
theorem Delivery.mainClose (h : Delivery cfg s) {cl : Closing} {after : AfterClose}
    {pc : MainPc} (hpc : s.main = .closing cl after)
    (hok : cl.phase = .erase → ∀ e ∈ s.events, e.fd ≠ cl.sd) (hhand : pc.hand = [])
    (hadd : pc.adding = after.adding)
    (hmain : pc.DispatchOk cfg s.sd) :
    Delivery cfg { (s.closeStep cl).1 with main := pc } := by
  have h₁ := h.closeStep hok
  have hsd : (s.closeStep cl).1.sd = s.sd := closeStep_sd s cl
  have hmain₁ : pc.DispatchOk cfg (s.closeStep cl).1.sd := by rwa [hsd]
  by_cases hold : s.main.adding = pc.adding
  · refine h₁.move rfl rfl rfl ?_ (by rw [closeStep_main]; exact hold.symm) hmain₁
    simp +contextual [State.events, hhand, closeStep_main, closeStep_batch]
  · -- the entry has just been removed
    obtain ⟨c, rfl, hphase⟩ : ∃ c, after = .add c ∧ cl.phase = .erase := by
      cases after with
      | add c =>
        by_cases hphase : cl.phase = .erase
        · exact ⟨c, rfl, hphase⟩
        · rw [hpc, hadd] at hold
          simp [MainPc.adding, AfterClose.adding, hphase] at hold
      | refused | event =>
        rw [hpc, hadd] at hold
        simp [MainPc.adding, AfterClose.adding] at hold
    have hfd : cl.sd = s.sd c := by simpa only [MainPc.DispatchOk, hpc] using h.main
    refine h₁.searched (c := c) ?_ ?_ hadd hhand hmain₁
    · simp [closeStep_main, hpc, MainPc.adding, hphase]
    · rw [hsd, ← hfd]
      simp [State.closeStep, hphase]

theorem deliver_delivery {evs : List (Fd × Events)} {s₁ : State} (h : Delivery cfg s)
    (hpc : s.main = .loop) (hwait : ∀ ev ∈ evs, s.Listed ev.1)
    (hdel : s.deliver cfg evs = some s₁) : Delivery cfg s₁ ∧ s₁.main = .loop := by
  have hkeep : Delivery cfg s₁ ∧ s₁.main = .loop ∧ s₁.connect = s.connect ∧
      s₁.owner = s.owner := by
    refine deliver_invariant (P := fun t => Delivery cfg t ∧ t.main = .loop ∧
      t.connect = s.connect ∧ t.owner = s.owner) ?_ ⟨h, hpc, rfl, rfl⟩ hdel
    rintro t ev t' hev ⟨ht, htpc, htconnect, htowner⟩ hone
    obtain ⟨r, src, -, howner, -, -, rfl⟩ := deliverOne_eq hone
    refine ⟨?_, htpc, htconnect, htowner⟩
    have hlisted := hwait ev hev
    simp only [State.Listed, ← htconnect, ← htowner] at hlisted
    refine ⟨fun e he => ?_, ht.entry, ht.listen, ht.main, ht.addingOwner, ht.addingEntry⟩
    have he' : e = ⟨ev.1, ev.2, src⟩ ∨ e ∈ t.batch := by
      simpa [State.events, htpc, MainPc.hand] using he
    rcases he' with rfl | hold
    · cases src with
      | listen => exact ht.listen _ howner
      | conn c =>
        -- the entry that the descriptor has is the one of its owner
        rcases ht.entry _ c howner with hnone | hsome | hadd
        · simp [hnone, howner] at hlisted
        · exact hsome
        · simp [htpc, MainPc.adding] at hadd
    · exact ht.sourced e (by simpa [State.events, htpc, MainPc.hand] using hold)
  exact ⟨hkeep.1, hkeep.2.1⟩

theorem Delivery.takeEvent (h : Delivery cfg s) (hpc : s.main = .loop) :
    Delivery cfg s.takeEvent := by
  cases hbatch : s.batch with
  | nil => simpa only [State.takeEvent, hbatch] using h
  | cons e rest =>
    simp only [State.takeEvent, hbatch]
    exact h.move rfl rfl rfl (by simp [State.events, hpc, hbatch, MainPc.hand])
      (by simp [hpc, MainPc.adding]) trivial

theorem Delivery.accept (h : Delivery cfg s) {e : Event} {fd : Fd} (hpc : s.main = .event e) :
    Delivery cfg
      { (s.setOwner fd (some (.conn s.fresh))).setSock s.fresh
          (({ sd := fd } : TstSocket).initBuffer cfg.recvBufSize cfg.sendBufSize) with
        fresh := s.fresh + 1
        main := .accepted s.fresh } where
  sourced e' he := h.sourced e' (List.mem_append_right _ he)
  entry fd' c howner := by
    by_cases hfd : fd' = fd
    · obtain rfl : s.fresh = c := by simpa [hfd] using howner
      exact .inr (.inr ⟨rfl, by simp [State.sd, hfd]⟩)
    · rcases h.entry fd' c (by simpa [hfd] using howner) with hentry | hentry | hadd
      · exact .inl hentry
      · exact .inr (.inl hentry)
      · simp [hpc, MainPc.adding] at hadd
  listen fd' howner := by
    by_cases hfd : fd' = fd
    · simp [hfd] at howner
    · exact h.listen fd' (by simpa [hfd] using howner)
  main := trivial
  addingOwner c b hadd := by
    obtain ⟨rfl, -⟩ : s.fresh = c ∧ false = b := by simpa [MainPc.adding] using hadd
    exact .inr (by simp [State.sd])
  addingEntry c hadd := by simp [MainPc.adding] at hadd

theorem Delivery.add (h : Delivery cfg s) {c : Conn} {sock : TstSocket}
    (hpc : s.main = .add c) : Delivery cfg { (s.setSock c sock).setConnect (s.sd c) (some c) with
      main := .fconnected c } where
  sourced e he := by
    have hsrc := h.sourced e (List.mem_append_right _ he)
    have hnone := h.addingEntry c (by simp [hpc, MainPc.adding])
    simp only [State.Sourced] at hsrc ⊢
    split
    · next hlisten => simpa only [hlisten] using hsrc
    · next c' hconn =>
      simp only [hconn] at hsrc
      have hne : e.fd ≠ s.sd c := by
        intro hfd
        rw [hfd, hnone] at hsrc
        simp at hsrc
      simpa [hne] using hsrc
  entry fd c' howner := by
    by_cases hfd : fd = s.sd c
    · have hc' : c' = c := by
        rcases h.addingOwner c true (by simp [hpc, MainPc.adding]) with hnone | hown
        · simp [hfd, hnone] at howner
        · simpa [hfd, hown, eq_comm] using howner
      exact .inr (.inl (by simp [hfd, hc']))
    · rcases h.entry fd c' howner with hentry | hentry | hadd
      · exact .inl (by simpa [hfd] using hentry)
      · exact .inr (.inl (by simpa [hfd] using hentry))
      · simp [hpc, MainPc.adding] at hadd
  listen := h.listen
  main := trivial
  addingOwner c' b hadd := by simp [MainPc.adding] at hadd
  addingEntry c' hadd := by simp [MainPc.adding] at hadd

theorem deliverOk.mainErase {inp : MainInput} {cl : Closing} {after : AfterClose}
    (hok : deliverOk s (.main inp)) (hpc : s.main = .closing cl after) :
    cl.phase = .erase → ∀ e ∈ s.events, e.fd ≠ cl.sd := by
  intro hphase
  refine hok.erase cl.sd ?_
  obtain ⟨sd, phase⟩ := cl
  subst hphase
  simp only [State.erases, hpc, Option.mem_def]

theorem mainStep_delivery {inp : MainInput} (h : Delivery cfg s)
    (hok : deliverOk s (.main inp)) (hstep : MainStep cfg s inp s') : Delivery cfg s' := by
  have hmain := h.main
  cases hstep with
  | epollWait hpc _ _ hdel =>
    obtain ⟨h₁, hpc₁⟩ := deliver_delivery h hpc hok.wait hdel
    exact h₁.takeEvent hpc₁
  | @closing cl cl' after s₁ hpc hclose =>
    obtain ⟨rfl, hfd, hphase, -⟩ := closeStep_rest hclose
    refine h.mainClose hpc (hok.mainErase hpc) rfl ?_ ?_
    · cases after <;> simp [MainPc.adding, AfterClose.adding, hphase]
    · cases after with
      | add c => exact hfd.trans (by simpa only [hpc, MainPc.DispatchOk] using hmain)
      | refused | event => trivial
  | @closed cl after s₁ hpc hclose =>
    obtain rfl : s₁ = (s.closeStep cl).1 := by rw [hclose]
    cases after with
    | add c => exact h.mainClose hpc (hok.mainErase hpc) rfl rfl trivial
    | refused c => exact h.mainClose hpc (hok.mainErase hpc) rfl rfl trivial
    | event e =>
      simp only [State.afterClose]
      split
      · have hloop : Delivery cfg { (s.closeStep cl).1 with main := .loop } :=
          h.mainClose hpc (hok.mainErase hpc) rfl rfl trivial
        exact hloop.move rfl rfl rfl (by simp [State.events, MainPc.hand]) rfl trivial
      · exact h.mainClose hpc (hok.mainErase hpc) rfl rfl trivial
  | accept hpc => exact h.accept hpc
  | unlisted hpc hmap =>
    exact h.searched (by simp [hpc, MainPc.adding]) hmap rfl rfl trivial
  | add hpc => exact h.add hpc
  | lookup hpc hmap =>
    have hsrc := h.sourced _ (List.mem_append_left _ (by rw [hpc]; exact List.mem_singleton_self _))
    simp only [MainPc.DispatchOk, hpc] at hmain
    refine h.move rfl rfl rfl (by simp [State.events, hpc, MainPc.hand])
      (by simp [hpc, MainPc.adding]) ?_
    simp only [State.Sourced] at hsrc
    split at hsrc
    · exact absurd hsrc hmain
    · next c' hconn =>
      rw [hmap, Option.some.injEq] at hsrc
      exact hconn.trans (congrArg Endpoint.conn hsrc.symm)
  | fconnected hpc | refuse hpc =>
    exact h.move rfl rfl (setSock_sd rfl) (by simp [State.events, hpc, MainPc.hand])
      (by simp [hpc, MainPc.adding]) trivial
  | remnant hpc =>
    exact h.move rfl rfl rfl (by simp [State.events, hpc, MainPc.hand])
      (by simp [hpc, MainPc.adding]) rfl
  | toClient hpc hclient =>
    exact h.move rfl rfl rfl (by simp [State.events, hpc, MainPc.hand])
      (by simp [hpc, MainPc.adding]) hclient
  | clientKeep hpc | scanFree hpc | scanBusy hpc | setRun hpc =>
    simp only [MainPc.DispatchOk, hpc] at hmain
    exact h.move rfl rfl rfl (by simp [State.events, hpc, MainPc.hand])
      (by simp [hpc, MainPc.adding]) hmain
  | setSocket hpc =>
    exact h.move rfl rfl (setSock_sd (by simp [State.sd]))
      (by simp +contextual [State.events, hpc, MainPc.hand]) (by simp [hpc, MainPc.adding]) trivial
  | register hpc | rearmListen hpc =>
    exact h.move rfl rfl rfl (by simp [State.events, hpc, MainPc.hand, State.ctlAdd, State.ctlMod])
      (by simp [hpc, MainPc.adding]) trivial
  | _ =>
    exact h.move rfl rfl rfl (by simp +contextual [*, State.events, MainPc.hand])
      (by simp [*, MainPc.adding]) trivial

theorem workerStep_delivery {i : Nat} {inp : WorkerInput} (h : Delivery cfg s)
    (hok : deliverOk s (.worker i inp)) (hstep : WorkerStep s i inp s') : Delivery cfg s' := by
  cases hstep with
  | own | rearmClose | rearm | rearmSkip => exact h.others rfl rfl rfl rfl rfl
  | job => exact h.others rfl rfl (setSock_sd (by simp [State.sd])) rfl rfl
  | call => exact h.others rfl rfl (setSock_sd rfl) rfl rfl
  | @closing cl _ _ s₁ hpc hclose | @closed cl _ s₁ hpc hclose =>
    obtain rfl : s₁ = (s.closeStep cl).1 := by rw [hclose]
    refine (h.closeStep fun hphase => hok.erase cl.sd ?_).others rfl rfl rfl rfl rfl
    obtain ⟨sd, phase⟩ := cl
    subst hphase
    simp only [State.erases, hpc, Option.mem_def]

theorem step_delivery {a : Action} (h : Delivery cfg s) (hok : deliverOk s a)
    (hstep : step cfg s a = some s') : Delivery cfg s' := by
  revert hstep
  fun_cases step cfg s a <;> intro hstep <;> try cases hstep
  · exact mainStep_delivery h hok (mainStep_cases hstep)
  · exact workerStep_delivery h hok (workerStep_cases hstep)
  · split <;> exact h.others rfl rfl rfl rfl rfl
  · exact h.others rfl rfl rfl rfl rfl
  · next k cl hcl s₁ rest hclose =>
    obtain rfl : s₁ = (s.closeStep cl).1 := by rw [hclose]
    refine (h.closeStep fun hphase => hok.erase cl.sd ?_).others rfl rfl rfl rfl rfl
    obtain ⟨sd, phase⟩ := cl
    subst hphase
    simp only [State.erases, hcl, Option.mem_def]
  · exact h.others rfl rfl (setSock_sd rfl) rfl rfl
  · exact h.others rfl rfl rfl rfl rfl

end Invariant

/-- Every event is dispatched to the connection on which it occurred, in every run in
which no entry is removed under a waiting event and no event is fetched without an entry. -/
theorem dispatch_own_connection (cfg : Config) (as : List Action) (s : State)
    (h : Exec (step cfg) deliverOk (.init cfg) as s) :
    (∀ e n, s.main = .lookup e n → ∃ c, s.connect e.fd = some c ∧ e.src = .conn c) ∧
      ∀ d i, s.main = .scan d i ∨ s.main = .setRun d i ∨ s.main = .setSocket d i →
        s.connect d.ev.fd = some d.conn ∧ d.ev.src = .conn d.conn := by
  have hinv : Delivery cfg s :=
    h.invariant (fun _ _ _ hok hs hstep => step_delivery hs hok hstep) (.init cfg)
  have hmain := hinv.main
  constructor
  · intro e n hpc
    have hsrc := hinv.sourced e (List.mem_append_left _ (by simp [hpc, MainPc.hand]))
    rw [hpc] at hmain
    simp only [State.Sourced] at hsrc
    split at hsrc
    · exact absurd hsrc hmain
    · next c hconn => exact ⟨c, hsrc, hconn⟩
  · intro d i hpc
    have hconn : d.ev.src = .conn d.conn := by rcases hpc with hpc | hpc | hpc <;> rwa [hpc] at hmain
    have hhand : d.ev ∈ s.main.hand := by rcases hpc with hpc | hpc | hpc <;> simp [hpc, MainPc.hand]
    have hsrc := hinv.sourced d.ev (List.mem_append_left _ hhand)
    simp only [State.Sourced, hconn] at hsrc
    exact ⟨hsrc, hconn⟩

theorem dispatch_own_connection_five :
    ∃ s e n, Exec (step .server) deliverOk (.init .server) (acceptRun 5 .suspend ++
        lookupRun 5 { epollin := true }) s ∧
      s.main = .lookup e n ∧ ∃ c, s.connect e.fd = some c ∧ e.src = .conn c := by
  have hrun : (check (step .server) deliverOk (.init .server) (acceptRun 5 .suspend ++
      lookupRun 5 { epollin := true })).any
      (fun s => s.main = .lookup ⟨5, { epollin := true }, .conn 0⟩ 1) = true := by decide
  obtain ⟨s, hexec, hpc⟩ := Exec.exists_of_check hrun
  have hpc := of_decide_eq_true hpc
  exact ⟨s, _, _, hexec, hpc, (dispatch_own_connection .server _ s hexec).1 _ _ hpc⟩

/-- The socket is closed by another thread, before the lookup of its event: the entry is
gone. When the descriptor has been accepted again in the same batch, the event goes to the
newer connection. -/
theorem dispatch_missing_or_newer :
    (∃ s e n, run (step .server) (.init .server) (acceptRun 5 .suspend ++
        lookupRun 5 { epollin := true } ++ [.othersClose 0 5, .othersStep 0]) = some s ∧
        s.main = .lookup e n ∧ s.connect e.fd = none) ∧
      ∃ s d, run (step .server) (.init .server) (acceptRun 5 .suspend ++
        [.main (.epollWait [(5, { epollin := true }), (3, { epollin := true })]),
          .othersClose 0 5, .othersStep 0, .othersStep 0, .othersStep 0] ++
        (acceptRun 5 .suspend).tail ++
        [.main .go, .main .go, .main (.ioctl false 1), .main .go]) = some s ∧
        s.main = .scan d 0 ∧ d.ev.src = .conn 0 ∧ d.conn = 1 := by
  refine ⟨⟨_, _, _, rfl, rfl, rfl⟩, ⟨_, _, rfl, rfl, rfl, rfl⟩⟩

end Tst.Pool
