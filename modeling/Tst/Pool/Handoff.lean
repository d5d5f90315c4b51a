import Tst.Lib.Execution
import Tst.Pool.Step

/-!
# The hand-off of jobs

A slot works as a mailbox for one job: `tst_main` puts a socket in, the worker takes it
out. The states `tst_run` and `tst_suspend` of the slot are the flag of the mailbox, and
both threads write them.

## Main definitions

- `Mailbox.accept` — what a mailbox allows
- `handLog` — the assignments, job entries and resets of one slot
- `handoffOk` — the worker does not overwrite an assignment and does not claim one
- `Handoff` — how the state of a slot and the position of `tst_main` fit together

## Main results

- `handoff_exactly_once` — under `handoffOk` the log of a slot is one of a mailbox
- `handoff_lost` — in general it is not
-/

namespace Tst.Pool

open Execution

-- ════════════════════════════════════════════════════════════════════════
-- The mailbox
-- ════════════════════════════════════════════════════════════════════════

/-- What happens to the job of a slot. `enter` is the worker's read of `tst_socket` for
a job, `suspend` and `exited` are the stores of `tst_suspend` and `tst_exited`. -/
inductive HandEvent
  | assign (c : Conn)
  | enter (socket : Option Conn)
  | suspend
  | exited
  deriving DecidableEq, Repr

/-- A mailbox for one job: an assignment finds it empty and fills it, the worker takes
out exactly what was put in, and the slot is reset only when it is empty. -/
def Mailbox.accept (box : Option Conn) : HandEvent → Option (Option Conn)
  | .assign c => if box = none then some (some c) else none
  | .enter (some c) => if box = some c then some none else none
  | .enter none => none
  | .suspend | .exited => if box = none then some none else none

/-- In a log that a mailbox accepts, an assignment is followed by the one entry of its
job, and then by whatever else happens to the slot. -/
theorem Mailbox.entered_once {l₁ l₂ l₃ : List HandEvent} {c : Conn} {x : HandEvent}
    {box : Option Conn}
    (h : run Mailbox.accept none (l₁ ++ .assign c :: (l₂ ++ x :: l₃)) = some box)
    (henter : ∀ y ∈ l₂, ∃ o, y = .enter o) (hx : ∀ o, x ≠ .enter o) :
    l₂ = [.enter (some c)] := by
  rw [run_append, Option.bind_eq_some_iff] at h
  obtain ⟨b, -, h⟩ := h
  obtain ⟨b', hassign, h⟩ := Option.bind_eq_some_iff.mp h
  obtain rfl : some c = b' := by
    revert hassign
    by_cases hb : b = none <;> simp [accept, hb]
  have hfull : ∀ o, accept (some c) (.enter o) = if o = some c then some none else none := by
    rintro (- | o)
    · simp [accept]
    · by_cases ho : o = c <;> simp [accept, ho, eq_comm]
  cases l₂ with
  | nil =>
    cases x with
    | enter o => exact absurd rfl (hx o)
    | assign | suspend | exited => simp [run, accept] at h
  | cons y ys =>
    obtain ⟨o, rfl⟩ := henter y (List.mem_cons_self ..)
    simp only [List.cons_append, run, hfull] at h
    by_cases ho : o = some c
    · subst ho
      simp only [if_true, Option.bind_some] at h
      cases ys with
      | nil => rfl
      | cons z zs =>
        obtain ⟨o', rfl⟩ := henter z (by simp)
        cases o' <;> simp [run, accept] at h
    · simp [ho] at h

-- ════════════════════════════════════════════════════════════════════════
-- The slot as a mailbox
-- ════════════════════════════════════════════════════════════════════════

/-- The points between the read of `tst_socket` and the end of the job. -/
@[simp] def WorkerPc.inJob : WorkerPc → Bool
  | .job _ | .call _ | .lockEnd _ _ | .rearm _ _ | .closing _ _ | .storeNext _ | .clearSocket =>
    true
  | _ => false

/-- The points at which the worker holds the mutex of its slot. -/
@[simp] def WorkerPc.locks : WorkerPc → Bool
  | .rearm _ _ | .closing _ _ | .storeNext _ | .clearSocket => true
  | _ => false

/-- The idle branch, while `thread_stat` stands at `tst_run`. -/
@[simp] def WorkerPc.idling : WorkerPc → Bool
  | .idleCall | .idleStore _ => true
  | _ => false

/-- Where `tst_main` is, as far as one slot is concerned: it has found the slot free, has
stored `tst_run` but not the socket, or is about to store `tst_exit`. -/
inductive MainView
  | away
  | found
  | storing (c : Conn)
  | exiting
  deriving DecidableEq, Repr

def MainPc.view (pc : MainPc) (i : Nat) : MainView :=
  match pc with
  | .setRun _ j => if j = i then .found else .away
  | .setSocket d j => if j = i then .storing d.conn else .away
  | .exitStore j => if j = i then .exiting else .away
  | _ => .away

def MainView.isStoring : MainView → Bool
  | .storing _ => true
  | _ => false

/-- `tst_main` holds the mutex of the slot. -/
def MainView.locks : MainView → Bool
  | .storing _ | .exiting => true
  | _ => false

/-- The job that has been assigned and not been entered. -/
def Slot.pending (sl : Slot) (v : MainView) : Option Conn :=
  match v with
  | .storing c => some c
  | _ => if sl.pc.inJob then none else sl.tstSocket

/-- The events of a step of the slot's worker. -/
def Slot.handLog (sl : Slot) : List HandEvent :=
  match sl.pc with
  | .takeSocket => [.enter sl.tstSocket]
  | .errStore | .otherStore => [.suspend]
  | .storeNext next | .idleStore next => if next = .suspend then [.suspend] else []
  | .exitMark | .exitStore => [.exited]
  | _ => []

/-- The events of slot `i`. An assignment begins with the store of `tst_run`. -/
def handLog (i : Nat) (s : State) : Action → List HandEvent
  | .main _ =>
    match s.main with
    | .setRun d j => if j = i then [.assign d.conn] else []
    | _ => []
  | .worker j _ => if j = i then (s.slot i).handLog else []
  | _ => []

/-- The worker resets or ends its slot only when no job is pending, `tst_idle` returns
`tst_run` exactly when one is, `tst_func` does not return `tst_run`, and `tst_socket` is
not read between the two stores of an assignment. -/
def Slot.handoffOk (sl : Slot) (v : MainView) : Bool :=
  match sl.pc with
  | .errStore | .otherStore | .exitMark | .exitStore => sl.pending v = none
  | .idleStore next => next = .run ↔ sl.pending v ≠ none
  | .storeNext next => next ≠ .run
  | .takeSocket => !v.isStoring
  | _ => true

def handoffOk (s : State) : Action → Bool
  | .worker i _ => (s.slot i).handoffOk (s.main.view i)
  | _ => true

/-- How the state of a slot and the position of `tst_main` fit together. -/
structure Handoff (v : MainView) (sl : Slot) : Prop where
  lockWorker : sl.lock = some .worker ↔ sl.pc.locks = true
  lockMain : sl.lock = some .main ↔ v.locks = true
  full : sl.pending v ≠ none → sl.stat = .run
  empty : v = .found ∨ v = .exiting → sl.pending v = none
  /-- `tst_main` is here: of a job at most the last step is missing -/
  near : v ≠ .away → sl.pc.inJob = true → sl.pc = .clearSocket
  job : sl.pc.inJob = true → (sl.stat = .run ↔ sl.pc ≠ .clearSocket)
  take : sl.pc = .takeSocket → sl.pending v ≠ none
  running : sl.stat = .run → sl.pending v ≠ none ∨ sl.pc.inJob = true ∨ sl.pc.idling = true

section Slot

variable {v : MainView} {sl sl' : Slot}

theorem Handoff.start : Handoff .away {} := by
  constructor <;> simp [WorkerPc.locks, MainView.locks, Slot.pending, WorkerPc.inJob]

/-- A step of the worker between two points of a job, which leaves the slot as it is. -/
theorem Handoff.jobStep (h : Handoff v sl) {pc : WorkerPc} (hin : sl.pc.inJob = true)
    (hin' : pc.inJob = true) (hlocks : pc.locks = sl.pc.locks) (hclear : sl.pc ≠ .clearSocket)
    (hclear' : pc ≠ .clearSocket) (hlog : sl.handLog = []) :
    Handoff v { sl with pc } ∧
      run Mailbox.accept (sl.pending v) sl.handLog = some (Slot.pending { sl with pc } v) := by
  have hpending : Slot.pending { sl with pc } v = sl.pending v := by
    simp only [Slot.pending, hin, hin']
  refine ⟨⟨?_, h.lockMain, ?_, ?_, ?_, ?_, ?_, ?_⟩, by rw [hlog, hpending]; rfl⟩
  · simpa only [hlocks] using h.lockWorker
  · simpa only [hpending] using h.full
  · simpa only [hpending] using h.empty
  · intro hv _
    exact absurd (h.near hv hin) hclear
  · intro _
    simpa [hclear'] using (h.job hin).mpr hclear
  · rintro rfl
    simp [WorkerPc.inJob] at hin'
  · exact fun _ => .inr (.inl hin')

/-- A step of the worker outside a job: it stores a state, or goes on with the old one. -/
theorem Handoff.store (h : Handoff v sl) {stat : TstStat} {pc : WorkerPc}
    (hin : sl.pc.inJob = false) (hlocks : sl.pc.locks = false) (hin' : pc.inJob = false)
    (hlocks' : pc.locks = false) (hfull : sl.pending v ≠ none → stat = .run)
    (hrun : stat = .run → sl.pending v ≠ none ∨ pc.idling = true)
    (htake : pc = .takeSocket → stat = .run) :
    Handoff v { sl with stat, pc } ∧ Slot.pending { sl with stat, pc } v = sl.pending v := by
  have hpending : Slot.pending { sl with stat, pc } v = sl.pending v := by
    simp only [Slot.pending, hin, hin']
  refine ⟨⟨?_, h.lockMain, ?_, ?_, ?_, ?_, ?_, ?_⟩, hpending⟩
  · simpa only [hlocks, hlocks'] using h.lockWorker
  · simpa only [hpending] using hfull
  · simpa only [hpending] using h.empty
  · intro _ hjob
    cases hin'.symm.trans hjob
  · intro hjob
    cases hin'.symm.trans hjob
  · intro hpc
    subst hpc
    rw [hpending]
    simpa [WorkerPc.idling] using hrun (htake rfl)
  · intro hstat
    rw [hpending]
    rcases hrun hstat with hp | hi
    · exact .inl hp
    · exact .inr (.inr hi)

/-- A step that only goes on. -/
theorem Handoff.walk (h : Handoff v sl) {pc : WorkerPc} (hin : sl.pc.inJob = false)
    (hlocks : sl.pc.locks = false) (hin' : pc.inJob = false) (hlocks' : pc.locks = false)
    (hidle : sl.pc.idling = pc.idling) (htake : pc = .takeSocket → sl.stat = .run) :
    Handoff v { sl with pc } ∧ Slot.pending { sl with pc } v = sl.pending v := by
  refine h.store hin hlocks hin' hlocks' h.full (fun hstat => ?_) htake
  rcases h.running hstat with hp | hjob | hi
  · exact .inl hp
  · cases hin.symm.trans hjob
  · exact .inr (hidle ▸ hi)

/-- A store of `tst_suspend` or `tst_exited` over an empty mailbox. -/
theorem Handoff.reset (h : Handoff v sl) {stat : TstStat} {pc : WorkerPc}
    (hin : sl.pc.inJob = false) (hlocks : sl.pc.locks = false) (hin' : pc.inJob = false)
    (hlocks' : pc.locks = false) (hnone : sl.pending v = none) (hstat : stat ≠ .run)
    (htake : pc ≠ .takeSocket) (hlog : sl.handLog = [.suspend] ∨ sl.handLog = [.exited]) :
    Handoff v { sl with stat, pc } ∧
      run Mailbox.accept (sl.pending v) sl.handLog =
        some (Slot.pending { sl with stat, pc } v) := by
  obtain ⟨ht, hp⟩ := h.store hin hlocks hin' hlocks' (fun hp => absurd hnone hp)
    (fun hs => absurd hs hstat) (fun hpc => absurd hpc htake)
  refine ⟨ht, ?_⟩
  rw [hp, hnone]
  rcases hlog with hlog | hlog <;> rw [hlog] <;> rfl

theorem Slot.Step.handoff {workRun : Bool} {inp : WorkerInput} (h : Handoff v sl)
    (hok : sl.handoffOk v = true) (hstep : Slot.Step workRun sl inp sl') :
    Handoff v sl' ∧ run Mailbox.accept (sl.pending v) sl.handLog = some (sl'.pending v) := by
  have hdone : ∀ {t : Slot}, Handoff v t ∧ t.pending v = sl.pending v → sl.handLog = [] →
      Handoff v t ∧ run Mailbox.accept (sl.pending v) sl.handLog = some (t.pending v) := by
    rintro t ⟨ht, hp⟩ hlog
    exact ⟨ht, by rw [hlog, hp]; rfl⟩
  cases hstep with
  | loop hpc =>
    refine hdone (h.walk ?_ ?_ ?_ ?_ ?_ ?_) (by simp [Slot.handLog, hpc]) <;>
      cases workRun <;> simp [hpc]
  | testWait hpc =>
    refine hdone (h.walk ?_ ?_ ?_ ?_ ?_ ?_) (by simp [Slot.handLog, hpc]) <;>
      by_cases hstat : sl.stat < .exit <;> simp [hpc, hstat]
  | @waiting r hpc hlock =>
    refine hdone (h.walk ?_ ?_ ?_ ?_ ?_ ?_) (by simp [Slot.handLog, hpc]) <;>
      by_cases hr : r = .failed <;> simp [hpc, hr]
  | testRun hpc =>
    refine hdone (h.walk ?_ ?_ ?_ ?_ ?_ ?_) (by simp [Slot.handLog, hpc]) <;>
      by_cases hstat : sl.stat = .run <;> simp [hpc, hstat]
  | testSuspend hpc =>
    refine hdone (h.walk ?_ ?_ ?_ ?_ ?_ ?_) (by simp [Slot.handLog, hpc]) <;>
      by_cases hstat : sl.stat = .suspend <;> simp [hpc, hstat]
  | testExit hpc =>
    refine hdone (h.walk ?_ ?_ ?_ ?_ ?_ ?_) (by simp [Slot.handLog, hpc]) <;>
      by_cases hstat : sl.stat = .exit <;> simp [hpc, hstat]
  | idleCall hpc =>
    refine hdone (h.walk ?_ ?_ ?_ ?_ ?_ ?_) (by simp [Slot.handLog, hpc]) <;> simp [hpc]
  | idleMark hpc =>
    refine hdone (h.store ?_ ?_ ?_ ?_ ?_ ?_ ?_) (by simp [Slot.handLog, hpc]) <;> simp [hpc]
  | errStore hpc | otherStore hpc | exitMark hpc | exitStore hpc =>
    have hnone : sl.pending v = none := by simpa [Slot.handoffOk, hpc] using hok
    apply h.reset <;> simp [hpc, hnone, Slot.handLog]
  | @idleStore next hpc hlock =>
    have hiff : next = .run ↔ sl.pending v ≠ none := by
      simp only [Slot.handoffOk, hpc] at hok
      exact of_decide_eq_true hok
    by_cases hnext : next = .suspend
    · subst hnext
      have hnone : sl.pending v = none := by simpa using hiff
      apply h.reset <;> simp [hpc, hnone, Slot.handLog]
    · refine hdone (h.store ?_ ?_ ?_ ?_ hiff.mpr (fun hrun => .inl (hiff.mp hrun)) ?_)
        (by simp [Slot.handLog, hpc, hnext]) <;> simp [hpc]
  | @takeSocket c hpc hsocket =>
    have hv : v.isStoring = false := by simpa [Slot.handoffOk, hpc] using hok
    have hp : sl.pending v = some c := by
      cases v with
      | storing c' => cases hv
      | away | found | exiting => simp [Slot.pending, hpc, hsocket]
    have hp' : Slot.pending { sl with pc := .job c } v = none := by
      cases v with
      | storing c' => cases hv
      | away | found | exiting => simp [Slot.pending]
    have hrun : sl.stat = .run := h.full (by simp [hp])
    have haway : v = .away := by
      cases v with
      | away => rfl
      | storing c' => cases hv
      | found | exiting => simp [h.empty] at hp
    refine ⟨⟨?_, h.lockMain, ?_, ?_, ?_, ?_, ?_, ?_⟩, ?_⟩
    · simpa [hpc] using h.lockWorker
    · exact fun _ => hrun
    · exact fun _ => hp'
    · exact fun hne => absurd haway hne
    · simp [hrun]
    · simp
    · simp
    · rw [hp', hp]
      simp [Slot.handLog, hpc, hsocket, run, Mailbox.accept]
  | takeNull hpc hsocket =>
    -- an assignment is pending, and its socket has been stored
    have hv : v.isStoring = false := by simpa [Slot.handoffOk, hpc] using hok
    have hp := h.take hpc
    cases v with
    | storing c => cases hv
    | away | found | exiting => simp [Slot.pending, hpc, hsocket] at hp
  | @lockEnd c next hpc hlock =>
    have hp : Slot.pending { sl with lock := some .worker, pc := .rearm c next } v =
        sl.pending v := by
      simp only [Slot.pending, hpc, WorkerPc.inJob]
    have hmain : v.locks = false := by simpa [hlock] using h.lockMain
    refine ⟨⟨by simp, by simp [hmain], ?_, ?_, ?_, ?_, by simp, by simp⟩, ?_⟩
    · simpa only [hp] using h.full
    · simpa only [hp] using h.empty
    · intro hv _
      simpa [hpc] using h.near hv (by simp [hpc])
    · simpa [hpc] using h.job (by simp [hpc])
    · rw [hp]
      simp [Slot.handLog, hpc, run]
  | @storeNext next hpc =>
    have hrun : next ≠ .run := by simpa [Slot.handoffOk, hpc] using hok
    have haway : v = .away := by
      by_contra hv
      simpa [hpc] using h.near hv (by simp [hpc])
    have hnone : sl.pending v = none := by simp [Slot.pending, haway, hpc]
    have hnone' : Slot.pending { sl with stat := next, pc := .clearSocket } v = none := by
      simp [Slot.pending, haway]
    refine ⟨⟨?_, h.lockMain, ?_, ?_, ?_, ?_, by simp, by simp⟩, ?_⟩
    · simpa [hpc] using h.lockWorker
    · exact fun hp => absurd hnone' hp
    · exact fun _ => hnone'
    · exact fun _ _ => rfl
    · simp [hrun]
    · rw [hnone, hnone']
      by_cases hnext : next = .suspend <;> simp [Slot.handLog, hpc, hnext, run, Mailbox.accept]
  | clearSocket hpc =>
    have hlock : sl.lock = some .worker := h.lockWorker.mpr (by simp [hpc])
    have hmain : v.locks = false := by simpa [hlock] using h.lockMain
    have hnone : sl.pending v = none := by
      cases v <;> simp [Slot.pending, hpc, MainView.locks] at hmain ⊢
    have hnone' : Slot.pending { sl with tstSocket := none, lock := none, pc := .loop } v =
        none := by
      cases v <;> simp [Slot.pending, MainView.locks] at hmain ⊢
    have hstat : sl.stat ≠ .run := by simpa [hpc] using h.job (by simp [hpc])
    refine ⟨⟨by simp, by simp [hmain], ?_, ?_, by simp, by simp, by simp, ?_⟩, ?_⟩
    · exact fun hp => absurd hnone' hp
    · exact fun _ => hnone'
    · exact fun hs => absurd hs hstat
    · rw [hnone, hnone']
      simp [Slot.handLog, hpc, run]

theorem Handoff.unlocked (h : Handoff v sl) (hlock : sl.lock ≠ some .worker) :
    sl.pc.locks = false := by
  simpa [hlock] using h.lockWorker

/-- Where `tst_main` has the slot, the worker is not in a job: the last step of a job is
made under the mutex. -/
theorem Handoff.outside (h : Handoff v sl) (hv : v ≠ .away) (hlock : sl.lock ≠ some .worker) :
    sl.pc.inJob = false := by
  by_contra hjob
  have hclear := h.near hv (by simpa using hjob)
  simpa [hclear] using h.unlocked hlock

theorem Handoff.locked (h : Handoff v sl) (hv : v.locks = true) : sl.lock = some .main :=
  h.lockMain.mpr hv

/-- `tst_main` sees `tst_suspend` in the slot. -/
theorem Handoff.find (h : Handoff .away sl) (hstat : sl.stat = .suspend) :
    Handoff .found sl ∧ sl.pending .found = sl.pending .away := by
  have hnone : sl.pending .away = none := by
    by_contra hp
    have := h.full hp
    simp [hstat] at this
  refine ⟨⟨h.lockWorker, h.lockMain, ?_, ?_, ?_, h.job, ?_, ?_⟩, rfl⟩
  · exact h.full
  · exact fun _ => hnone
  · intro _ hjob
    by_contra hclear
    have := (h.job hjob).mpr hclear
    simp [hstat] at this
  · exact h.take
  · exact h.running

/-- `tst_main` takes the mutex and stores `tst_run`. -/
theorem Handoff.assign (h : Handoff .found sl) (hlock : sl.lock = none) (c : Conn) :
    Handoff (.storing c) { sl with stat := .run, lock := some .main } ∧
      run Mailbox.accept (sl.pending .found) [.assign c] =
        some (Slot.pending { sl with stat := .run, lock := some .main } (.storing c)) := by
  have hworker := h.unlocked (by simp [hlock])
  have hjob := h.outside (by simp) (by simp [hlock])
  have hnone := h.empty (.inl rfl)
  refine ⟨⟨?_, ?_, ?_, ?_, ?_, ?_, ?_, ?_⟩, ?_⟩
  · simp only [hworker]
    simp
  · simp [MainView.locks]
  · exact fun _ => rfl
  · simp
  · intro _ hin
    cases hjob.symm.trans hin
  · intro hin
    cases hjob.symm.trans hin
  · simp [Slot.pending]
  · simp [Slot.pending]
  · rw [hnone]
    rfl

/-- `tst_main` stores the socket and gives the mutex back. -/
theorem Handoff.put {c : Conn} (h : Handoff (.storing c) sl) :
    Handoff .away { sl with tstSocket := some c, lock := none } ∧
      Slot.pending { sl with tstSocket := some c, lock := none } .away =
        sl.pending (.storing c) := by
  have hlock := h.locked rfl
  have hworker := h.unlocked (by simp [hlock])
  have hjob := h.outside (by simp) (by simp [hlock])
  have hrun : sl.stat = .run := h.full (by simp [Slot.pending])
  have hp : Slot.pending { sl with tstSocket := some c, lock := none } .away = some c := by
    simp only [Slot.pending, hjob, Bool.false_eq_true, if_false]
  refine ⟨⟨?_, ?_, ?_, ?_, ?_, ?_, ?_, ?_⟩, hp⟩
  · simp only [hworker]
    simp
  · simp [MainView.locks]
  · exact fun _ => hrun
  · simp
  · exact fun hv => absurd rfl hv
  · intro hin
    cases hjob.symm.trans hin
  · simp [hp]
  · simp [hp]

/-- `tst_main` takes the mutex to end a worker that sleeps. -/
theorem Handoff.exitFind (h : Handoff .away sl) (hlock : sl.lock = none)
    (hstat : sl.stat = .suspend) :
    Handoff .exiting { sl with lock := some .main } ∧
      Slot.pending { sl with lock := some .main } .exiting = sl.pending .away := by
  obtain ⟨hfound, -⟩ := h.find hstat
  have hworker := h.unlocked (by simp [hlock])
  refine ⟨⟨?_, ?_, ?_, ?_, ?_, h.job, ?_, ?_⟩, rfl⟩
  · simp only [hworker]
    simp
  · simp [MainView.locks]
  · exact h.full
  · exact fun _ => hfound.empty (.inl rfl)
  · exact fun _ => hfound.near (by simp)
  · exact h.take
  · exact h.running

/-- `tst_main` stores `tst_exit`. -/
theorem Handoff.exitStore (h : Handoff .exiting sl) :
    Handoff .away { sl with stat := .exit, lock := none } ∧
      Slot.pending { sl with stat := .exit, lock := none } .away = sl.pending .exiting := by
  have hlock := h.locked rfl
  have hworker := h.unlocked (by simp [hlock])
  have hjob := h.outside (by simp) (by simp [hlock])
  have hnone : Slot.pending { sl with stat := .exit, lock := none } .away = none :=
    h.empty (.inr rfl)
  refine ⟨⟨?_, ?_, ?_, ?_, ?_, ?_, ?_, ?_⟩, rfl⟩
  · simp only [hworker]
    simp
  · simp [MainView.locks]
  · exact fun hp => absurd hnone hp
  · simp
  · exact fun hv => absurd rfl hv
  · intro hin
    cases hjob.symm.trans hin
  · intro hpc
    exact absurd (h.empty (.inr rfl)) (h.take hpc)
  · simp

end Slot

-- ════════════════════════════════════════════════════════════════════════
-- The pool
-- ════════════════════════════════════════════════════════════════════════

section Pool

variable {cfg : Config} {s s' : State} {i : Nat}

/-- The hand-off invariant of all slots. -/
def State.HandedOff (s : State) : Prop := ∀ i, Handoff (s.main.view i) (s.slot i)

/-- The job pending in slot `i`. -/
def State.pending (s : State) (i : Nat) : Option Conn := (s.slot i).pending (s.main.view i)

theorem handedOff_init (cfg : Config) : (State.init cfg).HandedOff := by
  intro i
  simp only [State.init]
  split <;> exact .start

/-- The step of a worker, on its own slot. -/
theorem WorkerStep.handoff {inp : WorkerInput} (h : s.HandedOff)
    (hok : handoffOk s (.worker i inp) = true) (hstep : WorkerStep s i inp s') :
    Handoff (s.main.view i) (s'.slot i) ∧
      run Mailbox.accept (s.pending i) (s.slot i).handLog =
        some ((s'.slot i).pending (s.main.view i)) := by
  have hi := h i
  cases hstep with
  | own hsl => simpa [State.pending] using hsl.handoff hi hok
  | @job c k hpc =>
    simp only [State.setSlot, Function.update_self]
    by_cases hnext : ((s.sock c).transfer k).next = .run
    · simp only [hnext, if_true]
      apply hi.jobStep <;> simp [hpc, Slot.handLog]
    · simp only [hnext, if_false]
      apply hi.jobStep <;> simp [hpc, Slot.handLog]
  | call hpc | rearmClose hpc | rearm hpc | rearmSkip hpc | closing hpc | closed hpc =>
    simp only [State.setSlot, Function.update_self]
    apply hi.jobStep <;> simp [hpc, Slot.handLog]

/-- A step of `tst_main`, on any slot. -/
theorem MainStep.handoff {inp : MainInput} (h : s.HandedOff) (hstep : MainStep cfg s inp s')
    (i : Nat) :
    Handoff (s'.main.view i) (s'.slot i) ∧
      run Mailbox.accept (s.pending i) (handLog i s (.main inp)) = some (s'.pending i) := by
  have hi := h i
  cases hstep with
  | @scanFree d j hpc hlt hstat =>
    by_cases hj : j = i
    · subst hj
      obtain ⟨ht, hp⟩ := Handoff.find (by simpa [hpc, MainPc.view] using hi) hstat
      refine ⟨by simpa [MainPc.view] using ht, ?_⟩
      simp only [State.pending, handLog, hpc, MainPc.view, run, if_true, hp]
    · simp_all [State.pending, handLog, MainPc.view, run]
  | @setRun d j hpc hlock =>
    by_cases hj : j = i
    · subst hj
      obtain ⟨ht, hp⟩ := Handoff.assign (by simpa [hpc, MainPc.view] using hi) hlock d.conn
      refine ⟨by simpa [MainPc.view] using ht, ?_⟩
      simpa [State.pending, handLog, hpc, MainPc.view] using hp
    · simp_all [State.pending, handLog, MainPc.view, run, Ne.symm hj]
  | @setSocket d j hpc =>
    by_cases hj : j = i
    · subst hj
      obtain ⟨ht, hp⟩ := Handoff.put (by simpa [hpc, MainPc.view] using hi)
      refine ⟨by simpa [MainPc.view] using ht, ?_⟩
      simpa [State.pending, handLog, hpc, MainPc.view, run] using hp.symm
    · simp_all [State.pending, handLog, MainPc.view, run, Ne.symm hj]
  | @exitScanFree j hpc hlock hstat =>
    by_cases hj : j = i
    · subst hj
      obtain ⟨ht, hp⟩ := Handoff.exitFind (by simpa [hpc, MainPc.view] using hi) hlock hstat
      refine ⟨by simpa [MainPc.view] using ht, ?_⟩
      simpa [State.pending, handLog, hpc, MainPc.view, run] using hp.symm
    · simp_all [State.pending, handLog, MainPc.view, run, Ne.symm hj]
  | @exitStore j hpc =>
    by_cases hj : j = i
    · subst hj
      obtain ⟨ht, hp⟩ := Handoff.exitStore (by simpa [hpc, MainPc.view] using hi)
      refine ⟨by simpa [MainPc.view] using ht, ?_⟩
      simpa [State.pending, handLog, hpc, MainPc.view, run] using hp.symm
    · simp_all [State.pending, handLog, MainPc.view, run, Ne.symm hj]
  | epollWait hpc _ _ hdel =>
    obtain ⟨batch, reg, rfl⟩ := deliver_frame hdel
    rcases takeEvent_cases { s with batch := batch, reg := reg } with ⟨-, ht⟩ | ⟨e, rest, -, ht⟩ <;>
      simp_all [State.pending, handLog, MainPc.view, run]
  | @closing cl _ _ s₁ hpc hclose =>
    obtain rfl : s₁ = (s.closeStep cl).1 := by rw [hclose]
    clear hclose
    simp_all [State.pending, handLog, MainPc.view, run]
  | @closed cl after s₁ hpc hclose =>
    obtain rfl : s₁ = (s.closeStep cl).1 := by rw [hclose]
    clear hclose
    cases after with
    | add c | refused c => simp_all [State.pending, handLog, MainPc.view, run, State.afterClose]
    | event e =>
      by_cases hfd : e.fd = cfg.sockmain <;>
        simp_all [State.pending, handLog, MainPc.view, run, State.afterClose]
  | _ =>
    simp_all [State.pending, handLog, MainPc.view, run]

theorem WorkerStep.frame {inp : WorkerInput} (hstep : WorkerStep s i inp s') :
    s'.main = s.main ∧ ∀ j, j ≠ i → s'.slot j = s.slot j := by
  cases hstep with
  | @closing cl _ _ s₁ hpc hclose | @closed cl _ s₁ hpc hclose =>
    obtain rfl : s₁ = (s.closeStep cl).1 := by rw [hclose]
    simp +contextual
  | rearm => simp +contextual [State.ctlMod]
  | _ => simp +contextual

/-- One step keeps the invariant of every slot, and is a step of every mailbox. -/
theorem step_handoff {a : Action} (h : s.HandedOff) (hok : handoffOk s a = true)
    (hstep : step cfg s a = some s') (i : Nat) :
    Handoff (s'.main.view i) (s'.slot i) ∧
      run Mailbox.accept (s.pending i) (handLog i s a) = some (s'.pending i) := by
  revert hstep
  fun_cases step cfg s a <;> intro hstep <;> try cases hstep
  · exact (mainStep_cases hstep).handoff h i
  · next j inp _ =>
    have hj := workerStep_cases hstep
    obtain ⟨hmain, hslot⟩ := hj.frame
    simp only [State.pending, hmain, handLog]
    by_cases hi : j = i
    · subst hi
      simpa only [if_true, State.pending] using hj.handoff h hok
    · rw [hslot i (Ne.symm hi), if_neg hi]
      exact ⟨h i, rfl⟩
  · split <;> exact ⟨h i, rfl⟩
  · exact ⟨h i, rfl⟩
  · next cl _ s₁ rest hclose =>
    obtain rfl : s₁ = (s.closeStep cl).1 := by rw [hclose]
    simp [State.pending, handLog, run, h i]
  · exact ⟨h i, rfl⟩
  · exact ⟨h i, rfl⟩

end Pool

/-- Every assigned job is entered exactly once, by its worker and with its socket, before
the slot is assigned again, suspended or ended, in every run in which the worker neither
overwrites an assignment nor claims one. -/
theorem handoff_exactly_once (cfg : Config) (as : List Action) (s : State) (i : Nat)
    (h : Exec (step cfg) (fun s a => handoffOk s a = true) (.init cfg) as s) :
    ∃ box, run Mailbox.accept none (log (step cfg) (handLog i) (.init cfg) as) = some box := by
  have hstart : (State.init cfg).HandedOff ∧ (none : Option Conn) = (State.init cfg).pending i := by
    refine ⟨handedOff_init cfg, ?_⟩
    simp only [State.init]
    split <;> rfl
  have hsim : ∀ t a t' box, handoffOk t a = true → t.HandedOff ∧ box = t.pending i →
      step cfg t a = some t' →
      ∃ box', run Mailbox.accept box (handLog i t a) = some box' ∧
        t'.HandedOff ∧ box' = t'.pending i := by
    rintro t a t' _ hok ⟨hall, rfl⟩ hstep
    exact ⟨_, (step_handoff hall hok hstep i).2, fun j => (step_handoff hall hok hstep j).1, rfl⟩
  obtain ⟨box, hbox, -⟩ := h.refines hsim hstart
  exact ⟨box, hbox⟩

/-- `tst_main` has found worker 0 free for the first event of a client. -/
def foundRun : List Action :=
  acceptRun 5 .suspend ++ lookupRun 5 { epollin := true } ++ [.main .go, .main .go]

theorem handoff_exactly_once_job :
    ∃ s, Exec (step .server) (fun s a => handoffOk s a = true) (.init .server)
        (foundRun ++ [.main .go, .main .go] ++ jobRun 0 .suspend) s ∧
      ∃ box, run Mailbox.accept none (log (step .server) (handLog 0) (.init .server)
        (foundRun ++ [.main .go, .main .go] ++ jobRun 0 .suspend)) = some box := by
  have hrun : (check (step .server) (fun s a => handoffOk s a = true) (.init .server)
      (foundRun ++ [.main .go, .main .go] ++ jobRun 0 .suspend)).any
      (fun s => (s.slot 0).pc = .lockEnd 0 .suspend) = true := by decide
  obtain ⟨s, hexec, -⟩ := Exec.exists_of_check hrun
  exact ⟨s, hexec, handoff_exactly_once .server _ s 0 hexec⟩

/-- The worker wakes up by itself, sees `tst_suspend` and goes to its idle branch, just
before it is given the job. Its idle branch overwrites the assignment. -/
def lostRun : List Action :=
  [.worker 0 .go, .worker 0 .go, .worker 0 (.waited .timedOut), .worker 0 .go, .worker 0 .go] ++
    foundRun ++ [.main .go, .main .go] ++
    [.worker 0 .go, .worker 0 (.idle .suspend), .worker 0 .go]

theorem handoff_lost :
    (run (step .server) (.init .server) lostRun).isSome ∧
      log (step .server) (handLog 0) (.init .server) lostRun = [.assign 0, .suspend] ∧
      run Mailbox.accept none (log (step .server) (handLog 0) (.init .server) lostRun) = none := by
  refine ⟨?_, ?_, ?_⟩
  · decide
  · decide
  · decide

end Tst.Pool
