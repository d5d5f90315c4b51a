import Mathlib.Data.Nat.Log
import Tst.Lib.Update
import Tst.Pool.Handoff

/-!
# The end of the thread pool

When the main loop is over, `tst_main` tells the idle workers to exit, waits in a loop until each
worker counts as finished, cancels those that have not stored `tst_exited`, and frees `m_workers`.
A worker counts as finished by its `thread_stat` or by the time since its `begin_time`. The clock
is `CLOCK_MONOTONIC`, in nanoseconds. `tst_main` reads `thread_stat`, the clock and the two words
of `begin_time` one after the other and without a lock, and a worker stores these words one after
the other.

## Main definitions

- `elapsed` — the time since a `begin_time`, as the program computes it
- `Shutdown`, `shutdownStep` — the end of `tst_main`, with the clock and the time of each job
- `ShutsDown` — a worker is cancelled after a job of at least `m_endwaittime` only, and none that
  has not been cancelled uses its slot behind the `free()`
- `settled` — the loops of `tst_main` find only workers that are about to end, or in a job

## Main results

- `elapsed_le` — the computed time is not too long, if the job has begun before the clock is read
- `shuts_down` — so it is in every run whose steps are settled
- `shutdown_cuts_short` — a worker that has been told to exit is cancelled, and so is one whose job
  begins while `tst_main` looks at it; one that has stored `tst_exited` uses its slot behind the
  `free()`
-/

namespace Tst.Pool

open Execution Update

/-- `tv_sec` and `tv_nsec` of a time. -/
def tvSec (t : Nat) : Nat := t / 10 ^ 9

def tvNsec (t : Nat) : Nat := t % 10 ^ 9

/-- A whole number as a `double`: the nearest one of 53 bits, and of two the even one. -/
def toDouble (n : Nat) : Nat :=
  let unit := 2 ^ (n.log2 - 52)
  let low := n / unit * unit
  if 2 * (n % unit) < unit ∨ 2 * (n % unit) = unit ∧ n / unit % 2 = 0 then low else low + unit

/-- `timenow.tv_nsec - begin_time.tv_nsec + (seconds * 1e+9)`, converted to `uint64_t`. The addition
is the only step that rounds. A negative sum, which the language leaves open, wraps. -/
def elapsed (timenow : Nat) (seconds : UInt32) (nsec : Nat) : UInt64 :=
  let sum : Int := tvNsec timenow - nsec + seconds.toNat * 10 ^ 9
  if sum < 0 then UInt64.ofInt sum else UInt64.ofNat (toDouble sum.toNat)

/-- What the wait loop does next with a worker: it reads `thread_stat`, the clock, `tv_sec` and
`tv_nsec` of `begin_time`. -/
inductive Look
  | stat | clock
  | sec (timenow : Nat)
  | nsec (timenow : Nat) (seconds : UInt32)
  deriving DecidableEq, Repr

/-- The points of `tst_main` behind the loop that tells the workers to exit. -/
inductive ShutdownPc
  | running
  /-- `usleep(100000)` -/
  | sleep
  | wait (i count : Nat) (look : Look)
  | cancel (i : Nat)
  /-- `pthread_cancel()` -/
  | kill (i : Nat)
  | free | freed
  deriving DecidableEq, Repr

/-- A worker in `clock_gettime(CLOCK_MONOTONIC, &me->begin_time)`: it has read the clock, has stored
`tv_sec`, and has stored both words. -/
inductive Stamp
  | none | read (t : Nat) | sec (t : Nat) | stored (t : Nat)
  deriving DecidableEq, Repr

/-- The end of `tst_main`, and what the workers store for it. `started`, `ran`, `restamped` and
`touched` are history: when the current job began, how long the last one took, who has stored into
his `begin_time` since the clock was read for him, and who has used his slot behind the
`free()`. -/
structure Shutdown where
  /-- `CLOCK_MONOTONIC` -/
  now : Nat
  /-- `begin_time` -/
  beginSec : Nat → Nat := fun _ => 0
  beginNsec : Nat → Nat := fun _ => 0
  stamp : Nat → Stamp := fun _ => .none
  pc : ShutdownPc := .running
  /-- `szThreadStatus` -/
  threadStatus : Nat → Bool := fun _ => false
  cancelled : Nat → Bool := fun _ => false
  /-- a cancelled worker has come to its end -/
  dead : Nat → Bool := fun _ => false
  started : Nat → Option Nat := fun _ => Option.none
  ran : Nat → Nat := fun _ => 0
  restamped : Nat → Bool := fun _ => false
  touched : Nat → Bool := fun _ => false

namespace Shutdown

/-- The worker counts as finished. -/
def finish (sh : Shutdown) (i count : Nat) : Shutdown :=
  { sh with
    threadStatus := Function.update sh.threadStatus i true
    pc := .wait (i + 1) (count + 1) .stat }

/-- One step of the wait loop with a worker. -/
def look (sh : Shutdown) (endwaittime : Nat) (sl : Slot) (i count : Nat) : Look → Shutdown
  | .stat =>
    if sh.threadStatus i then { sh with pc := .wait (i + 1) (count + 1) .stat }
    else if ¬ sl.stat < .exit then sh.finish i count
    else { sh with pc := .wait i count .clock }
  | .clock =>
    { sh with
      restamped := Function.update sh.restamped i false
      pc := .wait i count (.sec sh.now) }
  | .sec timenow =>
    { sh with pc := .wait i count (.nsec timenow (.ofInt (tvSec timenow - sh.beginSec i))) }
  | .nsec timenow seconds =>
    if endwaittime ≤ (elapsed timenow seconds (sh.beginNsec i)).toNat then sh.finish i count
    else { sh with pc := .wait (i + 1) count .stat }

/-- One step of `tst_main` behind the loop that tells the workers to exit. -/
def step (cfg : Config) (endwaittime : Nat) (s : State) (sh : Shutdown) : Option Shutdown :=
  match sh.pc with
  | .running => if s.main = .done then some { sh with pc := .sleep } else none
  | .sleep => some { sh with pc := .wait 0 0 .stat }
  | .wait i count look =>
    if i < cfg.threadCount then some (sh.look endwaittime (s.slot i) i count look)
    else if count < cfg.threadCount then some { sh with pc := .sleep }
    else some { sh with pc := .cancel 0 }
  | .cancel i =>
    if i < cfg.threadCount then
      if (s.slot i).stat = .exited then some { sh with pc := .cancel (i + 1) }
      else some { sh with pc := .kill i }
    else some { sh with pc := .free }
  | .kill i =>
    some { sh with
      cancelled := Function.update sh.cancelled i true
      pc := .cancel (i + 1) }
  | .free => some { sh with pc := .freed }
  | .freed => none

/-- A worker sets its `begin_time`. -/
def stampStep (sh : Shutdown) (i : Nat) : Option Shutdown :=
  match sh.stamp i with
  | .none => some { sh with stamp := Function.update sh.stamp i (.read sh.now) }
  | .read t =>
    some { sh with
      stamp := Function.update sh.stamp i (.sec t)
      beginSec := Function.update sh.beginSec i (tvSec t)
      restamped := Function.update sh.restamped i true }
  | .sec t =>
    some { sh with
      stamp := Function.update sh.stamp i (.stored t)
      beginNsec := Function.update sh.beginNsec i (tvNsec t)
      restamped := Function.update sh.restamped i true }
  | .stored _ => none

/-- What the clock has to do with a step of a worker: its job begins with its `begin_time`, and is
over when it has given its slot back. A worker that has not set its `begin_time` does not take its
job. -/
def workerStep (sh : Shutdown) (i : Nat) (sl : Slot) : Option Shutdown :=
  match sl.pc with
  | .takeSocket =>
    match sh.stamp i with
    | .stored t =>
      some { sh with
        stamp := Function.update sh.stamp i .none
        started := Function.update sh.started i (some t) }
    | _ => none
  | .clearSocket =>
    some { sh with
      started := Function.update sh.started i none
      ran := Function.update sh.ran i (sh.now - (sh.started i).getD sh.now) }
  | _ => some sh

end Shutdown

/-- A step of the pool, a worker that sets its `begin_time`, time passing, a step of `tst_main` at
its end, and a cancelled worker that comes to a cancellation point. -/
inductive ShutdownAction
  | pool (a : Action)
  | stamp (i : Nat)
  | tick (d : Nat)
  | main
  | die (i : Nat)

/-- One step. Behind the `free()` a worker that goes on uses memory that is not its own. -/
def shutdownStep (cfg : Config) (endwaittime : Nat) (p : State × Shutdown) :
    ShutdownAction → Option (State × Shutdown)
  | .pool (.worker i inp) =>
    if p.2.dead i then none
    else if p.2.pc = .freed then
      (Pool.step cfg p.1 (.worker i inp)).map fun _ =>
        (p.1, { p.2 with touched := Function.update p.2.touched i true })
    else
      (Pool.step cfg p.1 (.worker i inp)).bind fun s =>
        (p.2.workerStep i (p.1.slot i)).map fun sh => (s, sh)
  | .stamp i =>
    if p.2.dead i = false ∧ i < cfg.threadCount ∧ (p.1.slot i).pc = .takeSocket then
      if p.2.pc = .freed then
        some (p.1, { p.2 with touched := Function.update p.2.touched i true })
      else (p.2.stampStep i).map fun sh => (p.1, sh)
    else none
  | .pool a => (Pool.step cfg p.1 a).map fun s => (s, p.2)
  | .tick d => some (p.1, { p.2 with now := p.2.now + d })
  | .main => (p.2.step cfg endwaittime p.1).map fun sh => (p.1, sh)
  | .die i =>
    if p.2.cancelled i then some (p.1, { p.2 with dead := Function.update p.2.dead i true })
    else none

/-- The job that the worker is in, or the last one it was in, has taken at least `m_endwaittime`. -/
def Shutdown.Overran (sh : Shutdown) (endwaittime i : Nat) : Prop :=
  match sh.started i with
  | some t => t + endwaittime ≤ sh.now
  | none => endwaittime ≤ sh.ran i

/-- Nobody is cancelled but for a job of at least `m_endwaittime`. When `m_workers` is freed every
worker has ended or has been cancelled, and nobody else uses its slot afterwards. -/
structure ShutsDown (cfg : Config) (endwaittime : Nat) (p : State × Shutdown) : Prop where
  cancelled : ∀ i, p.2.cancelled i = true → p.2.Overran endwaittime i
  freed : p.2.pc = .freed → ∀ i < cfg.threadCount,
    (p.1.slot i).pc = .exited ∨ p.2.cancelled i = true
  touched : ∀ i, p.2.touched i = true → p.2.cancelled i = true

/-- The worker has stored `tst_exited`, and only its last steps are to come. -/
def Slot.leaving (sl : Slot) : Bool :=
  sl.stat = .exited &&
    match sl.pc with
    | .clearSocket | .loop | .exitStore | .exited => true
    | _ => false

/-- What the wait loop finds of a worker is true: a `thread_stat` from `tst_exit` on only of one
that is leaving, and an elapsed time of `m_endwaittime` only of one that is in a job and has not
stored into its `begin_time` since the clock was read. -/
def Shutdown.found (sh : Shutdown) (endwaittime : Nat) (sl : Slot) (i : Nat) : Look → Bool
  | .stat => sh.threadStatus i || sl.stat < .exit || sl.leaving
  | .nsec timenow seconds =>
    decide ((elapsed timenow seconds (sh.beginNsec i)).toNat < endwaittime) ||
      sl.pc.inJob && !sh.restamped i
  | _ => true

/-- The wait loop finds what is true, and at the `free()` the workers that have stored `tst_exited`
have made their last access. -/
def settled (cfg : Config) (endwaittime : Nat) (p : State × Shutdown) : ShutdownAction → Bool
  | .main =>
    match p.2.pc with
    | .wait i _ look =>
      decide (i < cfg.threadCount → p.2.found endwaittime (p.1.slot i) i look = true)
    | .free =>
      decide (∀ i < cfg.threadCount, (p.1.slot i).stat = .exited → (p.1.slot i).pc = .exited)
    | _ => true
  | _ => true

-- ════════════════════════════════════════════════════════════════════════
-- What the steps of the pool do to the slots
-- ════════════════════════════════════════════════════════════════════════

/-- `m_work_run` has been cleared. -/
def MainPc.late : MainPc → Bool
  | .exitScan _ | .exitStore _ | .done => true
  | _ => false

/-- A job is about to begin, or its result has not been stored. -/
def WorkerPc.busy : WorkerPc → Bool
  | .takeSocket | .job _ | .call _ | .lockEnd _ _ | .rearm _ _ | .closing _ _ | .storeNext _ => true
  | _ => false

/-- The worker is in its last job, or behind it. -/
def WorkerPc.ending (pc : WorkerPc) : Bool :=
  pc.inJob || pc = .loop || pc = .exitStore || pc = .exited

/-- A step of a worker in its slot. -/
structure Slot.Walks (workRun : Bool) (sl sl' : Slot) : Prop where
  leaving : workRun = false → sl.leaving = true → sl'.leaving = true
  ending : workRun = false → sl.pc.ending = true → sl'.pc.ending = true
  job : sl'.pc.inJob = true → sl.pc.inJob = true ∧ sl.pc ≠ .clearSocket ∨ sl.pc = .takeSocket
  busy : (sl.pc.busy = true → sl.stat ≠ .exited) → sl'.pc.busy = true → sl'.stat ≠ .exited

section Slots

variable {cfg : Config} {s s' : State} {i : Nat}

theorem Slot.ending_of_leaving {sl : Slot} (h : sl.leaving = true) : sl.pc.ending = true := by
  revert h
  cases hpc : sl.pc <;> simp [Slot.leaving, WorkerPc.ending, hpc]

theorem Slot.stat_of_leaving {sl : Slot} (h : sl.leaving = true) : sl.stat = .exited := by
  rw [Slot.leaving, Bool.and_eq_true] at h
  exact of_decide_eq_true h.1

theorem Slot.leaving_of_ending {sl : Slot} (h : sl.pc.ending = true) (hstat : sl.stat = .exited)
    (hbusy : sl.pc.busy = true → sl.stat ≠ .exited) : sl.leaving = true := by
  revert h hbusy
  cases hpc : sl.pc <;> simp [Slot.leaving, WorkerPc.ending, WorkerPc.busy, hpc, hstat]

/-- A step outside the jobs that does not lead into one. -/
theorem Slot.Walks.outside {workRun : Bool} {sl sl' : Slot} (hpc : sl.pc.ending = false)
    (hjob : sl'.pc.inJob = false) (hbusy : sl'.pc.busy = true → sl'.stat ≠ .exited) :
    sl.Walks workRun sl' where
  leaving _ h := by
    rw [Slot.ending_of_leaving h] at hpc
    cases hpc
  ending _ h := by
    rw [h] at hpc
    cases hpc
  job h := by
    rw [h] at hjob
    cases hjob
  busy _ := hbusy

theorem Slot.Step.walks {workRun : Bool} {sl sl' : Slot} {inp : WorkerInput}
    (h : Slot.Step workRun sl inp sl') : sl.Walks workRun sl' := by
  cases h with
  | loop hpc =>
    cases workRun <;> constructor <;> simp_all [Slot.leaving, WorkerPc.ending, WorkerPc.busy]
  | testWait hpc | waiting hpc | testSuspend hpc | testExit hpc =>
    refine .outside (by rw [hpc]; rfl) ?_ ?_
    · dsimp only
      split <;> rfl
    · dsimp only
      split <;> simp [WorkerPc.busy]
  | testRun hpc =>
    refine .outside (by rw [hpc]; rfl) ?_ ?_
    · dsimp only
      split <;> rfl
    · dsimp only
      split
      · next hrun => simp [hrun]
      · simp [WorkerPc.busy]
  | _ =>
    constructor <;> simp_all [Slot.leaving, WorkerPc.ending, WorkerPc.busy]

/-- A step of a worker: it walks on in its slot, and nothing else that matters here changes. -/
theorem WorkerStep.walks {inp : WorkerInput} (h : WorkerStep s i inp s') :
    (s.slot i).Walks s.workRun (s'.slot i) ∧ s'.workRun = s.workRun := by
  cases h with
  | own hsl =>
    refine ⟨?_, rfl⟩
    simpa only [State.setSlot, Function.update_self] using hsl.walks
  | @job c k hpc =>
    refine ⟨?_, rfl⟩
    by_cases hnext : ((s.sock c).transfer k).next = .run <;> constructor <;>
      simp_all [Slot.leaving, WorkerPc.ending, WorkerPc.busy]
  | @closing cl _ _ s₁ hpc hclose | @closed cl _ s₁ hpc hclose =>
    obtain rfl : s₁ = (s.closeStep cl).1 := by rw [hclose]
    obtain ⟨connect, owner, reg, hframe⟩ := closeStep_frame s cl
    refine ⟨?_, by simp only [State.setSlot, hframe]⟩
    constructor <;> simp_all [Slot.leaving, WorkerPc.ending, WorkerPc.busy]
  | _ =>
    refine ⟨?_, rfl⟩
    constructor <;> simp_all [Slot.leaving, WorkerPc.ending, WorkerPc.busy]

/-- A step that is none of the workers' own: the workers stay where they are, and nobody stores
`tst_exited` for them. -/
structure Stays (s s' : State) : Prop where
  pc : ∀ i, (s'.slot i).pc = (s.slot i).pc
  stat : ∀ i, (s'.slot i).stat = (s.slot i).stat ∨ (s'.slot i).stat ≠ .exited
  late : (s.main.late = true → s.workRun = false) → s'.main.late = true → s'.workRun = false
  done : s.main = .done → s'.main = .done ∧ s'.slot = s.slot ∧ s'.workRun = s.workRun

theorem Stays.of_slot (hslot : s'.slot = s.slot) (hmain : s'.main = s.main)
    (hrun : s'.workRun = s.workRun) : Stays s s' where
  pc i := by rw [hslot]
  stat i := .inl (by rw [hslot])
  late h := by rwa [hmain, hrun]
  done h := ⟨hmain.trans h, hslot, hrun⟩

theorem MainStep.stays {inp : MainInput} (h : MainStep cfg s inp s') : Stays s s' := by
  cases h with
  | epollWait hpc hrun hbatch hdel =>
    obtain ⟨batch, reg, rfl⟩ := deliver_frame hdel
    obtain ⟨-, ht⟩ | ⟨e, rest, -, ht⟩ := takeEvent_cases { s with batch, reg }
    · rw [ht]
      exact ⟨fun _ => rfl, fun _ => .inl rfl, fun h => h, by simp [hpc]⟩
    · rw [ht]
      exact ⟨fun _ => rfl, fun _ => .inl rfl, by simp [MainPc.late], by simp [hpc]⟩
  | @closing cl cl' after s₁ hpc hclose =>
    obtain ⟨rfl, -⟩ := closeStep_rest hclose
    refine ⟨?_, ?_, by simp [MainPc.late], by simp [hpc]⟩ <;> simp
  | @closed cl after s₁ hpc hclose =>
    obtain ⟨rfl, -⟩ := closeStep_done hclose
    cases after with
    | add c | refused c =>
      refine ⟨?_, ?_, by simp [State.afterClose, MainPc.late], by simp [hpc]⟩ <;>
        simp [State.afterClose]
    | event e =>
      rw [State.afterClose]
      split
      · refine ⟨?_, ?_, by simp [MainPc.late], by simp [hpc]⟩ <;> simp
      · refine ⟨?_, ?_, by simp [MainPc.late], by simp [hpc]⟩ <;> simp
  | setRun hpc | exitStore hpc =>
    refine ⟨forall_setSlot (P := fun j sl => sl.pc = (s.slot j).pc) rfl fun _ _ => rfl,
      forall_setSlot (P := fun j sl => sl.stat = (s.slot j).stat ∨ sl.stat ≠ .exited)
        (.inr (by simp)) fun _ _ => .inl rfl, ?_, by simp [hpc]⟩
    simp_all [MainPc.late]
  | setSocket hpc | exitScanFree hpc =>
    refine ⟨forall_setSlot (P := fun j sl => sl.pc = (s.slot j).pc) rfl fun _ _ => rfl,
      forall_setSlot (P := fun j sl => sl.stat = (s.slot j).stat ∨ sl.stat ≠ .exited)
        (.inl rfl) fun _ _ => .inl rfl, ?_, by simp [hpc]⟩
    simp_all [MainPc.late]
  | _ => exact ⟨fun _ => rfl, fun _ => .inl rfl, by simp_all [MainPc.late], by simp_all⟩

theorem step_stays {a : Action} (ha : ∀ i inp, a ≠ .worker i inp)
    (h : Pool.step cfg s a = some s') : Stays s s' := by
  revert h
  fun_cases Pool.step cfg s a <;> intro h <;> try cases h
  · exact (mainStep_cases h).stays
  · exact absurd rfl (ha _ _)
  · split <;> exact .of_slot rfl rfl rfl
  · exact .of_slot rfl rfl rfl
  · next k cl hcl s₁ rest hclose =>
    obtain rfl : (s.closeStep cl).1 = s₁ := by rw [hclose]
    obtain ⟨connect, owner, reg, hframe⟩ := closeStep_frame s cl
    exact .of_slot (closeStep_slot s cl) (closeStep_main s cl) (by simp only [hframe])
  · exact .of_slot rfl rfl rfl
  · exact .of_slot rfl rfl rfl

end Slots

-- ════════════════════════════════════════════════════════════════════════
-- The time of a job
-- ════════════════════════════════════════════════════════════════════════

section Time

variable {sh sh' : Shutdown} {sl : Slot} {endwaittime i j n t timenow : Nat}

theorem tvNsec_lt (t : Nat) : tvNsec t < 10 ^ 9 := Nat.mod_lt _ (by decide)

theorem tvSec_add_tvNsec (t : Nat) : 10 ^ 9 * tvSec t + tvNsec t = t := Nat.div_add_mod t (10 ^ 9)

theorem toDouble_exact (h : n < 2 ^ 53) : toDouble n = n := by
  have hshift : n.log2 - 52 = 0 := by
    by_cases h0 : n = 0
    · simp [h0]
    · have hlog := (Nat.log2_lt h0).mpr h
      omega
  simp [toDouble, hshift, Nat.mod_one]

/-- The difference of the seconds, as a `uint32_t`, of two times that are not far apart. -/
theorem seconds_toNat (h : t ≤ timenow) (hclose : timenow < t + 2 ^ 53) :
    (UInt32.ofInt (tvSec timenow - tvSec t)).toNat = tvSec timenow - tvSec t := by
  have hsec : tvSec t ≤ tvSec timenow := Nat.div_le_div_right h
  have hnow := tvSec_add_tvNsec timenow
  have hthen := tvSec_add_tvNsec t
  have hlt := tvNsec_lt t
  rw [← Int.ofNat_sub hsec]
  simp only [UInt32.ofInt, UInt32.toNat_ofNat']
  omega

/-- Up to 2^53 ns, which is 104 days, a computed time is reached only when the time is over, if the
job has begun before the clock is read. -/
theorem elapsed_le (h : t ≤ timenow) (hwait : endwaittime ≤ 2 ^ 53)
    (helapsed : endwaittime ≤
      (elapsed timenow (.ofInt (tvSec timenow - tvSec t)) (tvNsec t)).toNat) :
    t + endwaittime ≤ timenow := by
  by_contra hshort
  have hclose : timenow - t < 2 ^ 53 := by omega
  have hseconds := seconds_toNat h (by omega)
  have hsum : (tvNsec timenow : Int) - tvNsec t + (tvSec timenow - tvSec t : Nat) * 10 ^ 9 =
      (timenow - t : Nat) := by
    have hsec : tvSec t ≤ tvSec timenow := Nat.div_le_div_right h
    have hnow := tvSec_add_tvNsec timenow
    have hthen := tvSec_add_tvNsec t
    omega
  have hvalue : (elapsed timenow (.ofInt (tvSec timenow - tvSec t)) (tvNsec t)).toNat =
      timenow - t := by
    rw [elapsed, hseconds, hsum, if_neg (by omega), Int.toNat_natCast, toDouble_exact hclose,
      UInt64.toNat_ofNat_of_lt']
    exact Nat.lt_trans hclose (by decide)
  omega

theorem Shutdown.Overran.tick (h : sh.Overran endwaittime i) (d : Nat) :
    ({ sh with now := sh.now + d } : Shutdown).Overran endwaittime i := by
  simp only [Overran] at h ⊢
  split at h
  · exact Nat.le_trans h (Nat.le_add_right ..)
  · exact h

/-- What a step of a worker does here: the job begins, or it is over, or nothing happens. -/
theorem workerTime_cases (h : sh.workerStep j sl = some sh') :
    (∃ t, sl.pc = .takeSocket ∧ sh.stamp j = .stored t ∧
      sh' = { sh with
        stamp := Function.update sh.stamp j .none
        started := Function.update sh.started j (some t) }) ∨
    (sl.pc = .clearSocket ∧
      sh' = { sh with
        started := Function.update sh.started j none
        ran := Function.update sh.ran j (sh.now - (sh.started j).getD sh.now) }) ∨
    sl.pc ≠ .takeSocket ∧ sl.pc ≠ .clearSocket ∧ sh' = sh := by
  revert h
  rw [Shutdown.workerStep]
  split
  · next hpc =>
    split
    · next t hstamp =>
      intro h
      exact .inl ⟨t, hpc, hstamp, (Option.some.inj h).symm⟩
    · intro h
      cases h
  · next hpc => exact fun h => .inr (.inl ⟨hpc, (Option.some.inj h).symm⟩)
  · next htake hclear => exact fun h => .inr (.inr ⟨htake, hclear, (Option.some.inj h).symm⟩)

/-- A worker that does not take a new job keeps the time of the one that it has had. -/
theorem Shutdown.Overran.workerStep (h : sh.Overran endwaittime i)
    (hjob : sl.pc.inJob = true → (sh.started j).isSome) (hpc : j = i → sl.pc ≠ .takeSocket)
    (hstep : sh.workerStep j sl = some sh') : sh'.Overran endwaittime i := by
  obtain ⟨t, hsl, -, rfl⟩ | ⟨hsl, rfl⟩ | ⟨-, -, rfl⟩ := workerTime_cases hstep
  · have hne : i ≠ j := fun hi => hpc hi.symm hsl
    simpa only [Overran, Function.update_of_ne hne] using h
  · by_cases hne : i = j
    · subst hne
      obtain ⟨t, ht⟩ := Option.isSome_iff_exists.mp (hjob (by rw [hsl]; rfl))
      simp only [Overran, ht] at h
      simp only [Overran, Function.update_self, ht, Option.getD_some]
      exact Nat.le_sub_of_add_le' h
    · simpa only [Overran, Function.update_of_ne hne] using h
  · exact h

end Time

-- ════════════════════════════════════════════════════════════════════════
-- Who counts as finished
-- ════════════════════════════════════════════════════════════════════════

/-- The worker is leaving, or in a job that has taken long enough, or behind it. -/
def Finished (endwaittime : Nat) (p : State × Shutdown) (i : Nat) : Prop :=
  (p.1.slot i).leaving = true ∨
    p.2.Overran endwaittime i ∧ (p.1.slot i).pc.ending = true

/-- The wait loop has counted the workers in front of the one that it looks at. -/
def Shutdown.Counts (cfg : Config) (sh : Shutdown) : Prop :=
  match sh.pc with
  | .wait i count _ =>
    i ≤ cfg.threadCount ∧ count ≤ i ∧ (count = i → ∀ j < i, sh.threadStatus j = true)
  | .cancel _ | .free | .freed => ∀ j < cfg.threadCount, sh.threadStatus j = true
  | .kill i => i < cfg.threadCount ∧ ∀ j < cfg.threadCount, sh.threadStatus j = true
  | _ => True

/-- The two words of `begin_time` are those of one time. -/
def Shutdown.Stamped (sh : Shutdown) (i t : Nat) : Prop :=
  sh.beginSec i = tvSec t ∧ sh.beginNsec i = tvNsec t

/-- How far a worker has come with its `begin_time`. -/
def Shutdown.Stamping (sh : Shutdown) (i : Nat) : Prop :=
  match sh.stamp i with
  | .none => True
  | .read t => t ≤ sh.now
  | .sec t => t ≤ sh.now ∧ sh.beginSec i = tvSec t
  | .stored t => t ≤ sh.now ∧ sh.Stamped i t

/-- A worker that has not stored into its `begin_time` since the clock was read has begun its job
before. -/
def Shutdown.BegunBy (sh : Shutdown) (i timenow : Nat) : Prop :=
  timenow ≤ sh.now ∧ (sh.restamped i = false →
    ∀ t, sh.stamp i = .stored t ∨ sh.started i = some t → t ≤ timenow)

/-- What the wait loop has read of a worker still holds. -/
def Shutdown.Reading (sh : Shutdown) : Prop :=
  match sh.pc with
  | .wait i _ (.sec timenow) => sh.BegunBy i timenow
  | .wait i _ (.nsec timenow seconds) =>
    sh.BegunBy i timenow ∧
      (sh.restamped i = false → seconds = .ofInt (tvSec timenow - sh.beginSec i))
  | _ => True

/-- The workers that the last loop has passed are leaving, or have been cancelled. -/
def Checks (cfg : Config) (p : State × Shutdown) : Prop :=
  match p.2.pc with
  | .cancel i | .kill i => ∀ j < i, (p.1.slot j).leaving = true ∨ p.2.cancelled j = true
  | .free => ∀ j < cfg.threadCount, (p.1.slot j).leaving = true ∨ p.2.cancelled j = true
  | .freed => ∀ j < cfg.threadCount, (p.1.slot j).pc = .exited ∨ p.2.cancelled j = true
  | _ => True

/-- The jobs are timed by `begin_time`, the workers that count as finished are, and so are the
ones that are cancelled. -/
structure Winding (cfg : Config) (endwaittime : Nat) (p : State × Shutdown) : Prop where
  late : p.1.main.late = true → p.1.workRun = false
  busy : ∀ i, (p.1.slot i).pc.busy = true → (p.1.slot i).stat ≠ .exited
  job : ∀ i, (p.1.slot i).pc.inJob = true → ∃ t, p.2.started i = some t ∧ p.2.Stamped i t
  begun : ∀ i t, p.2.started i = some t → t ≤ p.2.now
  stamp : ∀ i, p.2.Stamping i
  reading : p.2.Reading
  behind : p.2.pc ≠ .running → p.1.main = .done
  running : p.2.pc = .running → ∀ i, p.2.threadStatus i = false
  status : ∀ i, p.2.threadStatus i = true → Finished endwaittime p i
  counts : p.2.Counts cfg
  checks : Checks cfg p
  cancelled : ∀ i, p.2.cancelled i = true →
    p.2.threadStatus i = true ∧ p.2.Overran endwaittime i ∧ (p.1.slot i).pc.ending = true
  doomed : ∀ i, p.2.pc = .kill i → p.2.Overran endwaittime i ∧ (p.1.slot i).pc.ending = true
  touched : ∀ i, p.2.touched i = true → p.2.cancelled i = true

section Winding

variable {cfg : Config} {endwaittime : Nat} {s s' : State} {sh sh' : Shutdown}

theorem Winding.workRun (h : Winding cfg endwaittime (s, sh)) (hpc : sh.pc ≠ .running) :
    s.workRun = false :=
  h.late (by rw [h.behind hpc]; rfl)

/-- A step of the pool other than a worker's. -/
theorem Winding.stays (h : Winding cfg endwaittime (s, sh)) (hstep : Stays s s') :
    Winding cfg endwaittime (s', sh) := by
  have hslot : sh.pc ≠ .running → s'.slot = s.slot := fun hpc => (hstep.done (h.behind hpc)).2.1
  refine ⟨hstep.late h.late, ?_, ?_, h.begun, h.stamp, h.reading, ?_, h.running, ?_, h.counts, ?_,
    ?_, ?_, h.touched⟩
  · intro i hbusy
    rw [hstep.pc] at hbusy
    obtain hstat | hstat := hstep.stat i
    · rw [hstat]
      exact h.busy i hbusy
    · exact hstat
  · intro i hjob
    rw [hstep.pc] at hjob
    exact h.job i hjob
  · intro hpc
    exact (hstep.done (h.behind hpc)).1
  · intro i hi
    have hpc : sh.pc ≠ .running := fun hrunning =>
      Bool.false_ne_true ((h.running hrunning i).symm.trans hi)
    have hfinished := h.status i hi
    simpa only [Finished, hslot hpc] using hfinished
  · have hchecks := h.checks
    simp only [Checks] at hchecks ⊢
    split <;> simp_all
  · intro i hi
    obtain ⟨hstatus, hover, hending⟩ := h.cancelled i hi
    exact ⟨hstatus, hover, by rwa [hstep.pc]⟩
  · intro i hi
    obtain ⟨hover, hending⟩ := h.doomed i hi
    exact ⟨hover, by rwa [hstep.pc]⟩

theorem workerTime_fields {i : Nat} {sl : Slot}
    (h : sh.workerStep i sl = some sh') :
    sh'.pc = sh.pc ∧ sh'.now = sh.now ∧ sh'.threadStatus = sh.threadStatus ∧
      sh'.cancelled = sh.cancelled ∧ sh'.touched = sh.touched ∧ sh'.restamped = sh.restamped ∧
      sh'.beginSec = sh.beginSec ∧ sh'.beginNsec = sh.beginNsec := by
  obtain ⟨t, -, -, rfl⟩ | ⟨-, rfl⟩ | ⟨-, -, rfl⟩ := workerTime_cases h <;>
    exact ⟨rfl, rfl, rfl, rfl, rfl, rfl, rfl, rfl⟩

/-- A job begins with the `begin_time` that has been stored. -/
theorem workerTime_started {i j t : Nat} {sl : Slot}
    (h : sh.workerStep j sl = some sh') (hstarted : sh'.started i = some t) :
    sh.stamp i = .stored t ∨ sh.started i = some t := by
  obtain ⟨t', -, hstamp, rfl⟩ | ⟨-, rfl⟩ | ⟨-, -, rfl⟩ := workerTime_cases h
  · by_cases hij : i = j
    · subst hij
      simp only [Function.update_self] at hstarted
      obtain rfl := Option.some.inj hstarted
      exact .inl hstamp
    · simp only [Function.update_of_ne hij] at hstarted
      exact .inr hstarted
  · by_cases hij : i = j
    · subst hij
      simp only [Function.update_self] at hstarted
      cases hstarted
    · simp only [Function.update_of_ne hij] at hstarted
      exact .inr hstarted
  · exact .inr hstarted

theorem workerTime_stamp {j : Nat} {sl : Slot}
    (h : sh.workerStep j sl = some sh') (i : Nat) :
    sh'.stamp i = sh.stamp i ∨ sh'.stamp i = .none := by
  obtain ⟨t, -, -, rfl⟩ | ⟨-, rfl⟩ | ⟨-, -, rfl⟩ := workerTime_cases h
  · by_cases hij : i = j
    · subst hij
      exact .inr (Function.update_self ..)
    · exact .inl (Function.update_of_ne hij ..)
  · exact .inl rfl
  · exact .inl rfl

/-- What has been read still holds when a worker begins or ends a job. -/
theorem Shutdown.Reading.workerStep {j : Nat} {sl : Slot} (hreading : sh.Reading)
    (h : sh.workerStep j sl = some sh') : sh'.Reading := by
  obtain ⟨hpc, hnow, -, -, -, hrestamped, hsec, -⟩ := workerTime_fields h
  have hbegun : ∀ i timenow, sh.BegunBy i timenow → sh'.BegunBy i timenow := by
    intro i timenow hby
    refine ⟨hnow ▸ hby.1, fun hfresh t ht => hby.2 (hrestamped ▸ hfresh) t ?_⟩
    obtain hstored | hstarted := ht
    · obtain hsame | hnone := workerTime_stamp h i
      · exact .inl (hsame ▸ hstored)
      · rw [hnone] at hstored
        cases hstored
    · exact workerTime_started h hstarted
  rw [Shutdown.Reading] at hreading ⊢
  rw [hpc, hrestamped, hsec]
  split
  · next i _ timenow heq =>
    rw [heq] at hreading
    exact hbegun i timenow hreading
  · next i _ timenow seconds heq =>
    rw [heq] at hreading
    exact ⟨hbegun i timenow hreading.1, hreading.2⟩
  · trivial

/-- A worker in a job has its begin in `begin_time`. -/
theorem Winding.worker_job (h : Winding cfg endwaittime (s, sh)) {i j : Nat} {inp : WorkerInput}
    (hstep : WorkerStep s j inp s') (htime : sh.workerStep j (s.slot j) = some sh')
    (hjob : (s'.slot i).pc.inJob = true) :
    ∃ t, sh'.started i = some t ∧ sh'.Stamped i t := by
  obtain ⟨hwalks, -⟩ := hstep.walks
  obtain ⟨-, hothers⟩ := hstep.frame
  obtain ⟨-, -, -, -, -, -, hsec, hnsec⟩ := workerTime_fields htime
  have hwords : ∀ t, sh.Stamped i t → sh'.Stamped i t := fun t hwas => by
    rwa [Shutdown.Stamped, hsec, hnsec]
  by_cases hij : i = j
  · subst hij
    obtain ⟨t, htake, hstamp, rfl⟩ | ⟨hclear, -⟩ | ⟨htake, -, rfl⟩ := workerTime_cases htime
    · have hstamping := h.stamp i
      simp only [Shutdown.Stamping, hstamp] at hstamping
      exact ⟨t, Function.update_self .., hstamping.2⟩
    · obtain ⟨-, hne⟩ | htake := hwalks.job hjob
      · exact absurd hclear hne
      · rw [htake] at hclear
        cases hclear
    · exact h.job i ((hwalks.job hjob).resolve_right htake).1
  · obtain ⟨t, hsome, hwas⟩ := h.job i (by rwa [hothers i hij] at hjob)
    refine ⟨t, ?_, hwords t hwas⟩
    obtain ⟨-, -, -, rfl⟩ | ⟨-, rfl⟩ | ⟨-, -, rfl⟩ := workerTime_cases htime
    · exact (Function.update_of_ne hij ..).trans hsome
    · exact (Function.update_of_ne hij ..).trans hsome
    · exact hsome

/-- A step of a worker. -/
theorem Winding.worker (h : Winding cfg endwaittime (s, sh)) {j : Nat} {inp : WorkerInput}
    (hfreed : sh.pc ≠ .freed) (hstep : WorkerStep s j inp s')
    (htime : sh.workerStep j (s.slot j) = some sh') : Winding cfg endwaittime (s', sh') := by
  obtain ⟨hwalks, hrun⟩ := hstep.walks
  obtain ⟨hmain, hothers⟩ := hstep.frame
  obtain ⟨hpc, hnow, hstatus, hcancelled, htouched, -, hsec, hnsec⟩ := workerTime_fields htime
  have hstarted : (s.slot j).pc.inJob = true → (sh.started j).isSome := fun hjob => by
    obtain ⟨t, hsome, -⟩ := h.job j hjob
    exact Option.isSome_iff_exists.mpr ⟨t, hsome⟩
  -- behind the main loop nobody takes a new job
  have hover : sh.pc ≠ .running → ∀ i, sh.Overran endwaittime i →
      (s.slot i).pc.ending = true → sh'.Overran endwaittime i := by
    intro _ i hi hending
    refine hi.workerStep hstarted (fun hji htake => ?_) htime
    rw [← hji, htake] at hending
    cases hending
  have hending : sh.pc ≠ .running → ∀ i, (s.slot i).pc.ending = true →
      (s'.slot i).pc.ending = true := by
    intro hne i hi
    by_cases hij : i = j
    · subst hij
      exact hwalks.ending (h.workRun hne) hi
    · rwa [hothers i hij]
  have hleaving : sh.pc ≠ .running → ∀ i, (s.slot i).leaving = true →
      (s'.slot i).leaving = true := by
    intro hne i hi
    by_cases hij : i = j
    · subst hij
      exact hwalks.leaving (h.workRun hne) hi
    · rwa [hothers i hij]
  have hbehind : ∀ i, sh.threadStatus i = true → sh.pc ≠ .running := fun i hi hrunning =>
    Bool.false_ne_true ((h.running hrunning i).symm.trans hi)
  refine ⟨?_, ?_, ?_, ?_, ?_, h.reading.workerStep htime, ?_, ?_, ?_, ?_, ?_, ?_, ?_, ?_⟩
  · simpa only [hmain, hrun] using h.late
  · intro i
    by_cases hij : i = j
    · subst hij
      exact hwalks.busy (h.busy i)
    · simpa only [hothers i hij] using h.busy i
  · exact fun i hjob => h.worker_job hstep htime hjob
  · intro i t ht
    rw [hnow]
    obtain hstored | hbegun := workerTime_started htime ht
    · have hstamping := h.stamp i
      simp only [Shutdown.Stamping, hstored] at hstamping
      exact hstamping.1
    · exact h.begun i t hbegun
  · intro i
    have hstamping := h.stamp i
    rw [Shutdown.Stamping] at hstamping ⊢
    obtain hsame | hnone := workerTime_stamp htime i
    · simpa only [hsame, hnow, Shutdown.Stamped, hsec, hnsec] using hstamping
    · rw [hnone]
      trivial
  · simpa only [hpc, hmain] using h.behind
  · simpa only [hpc, hstatus] using h.running
  · intro i hi
    simp only [hstatus] at hi
    have hne := hbehind i hi
    obtain hl | ⟨hi', he⟩ := h.status i hi
    · exact .inl (hleaving hne i hl)
    · exact .inr ⟨hover hne i hi' he, hending hne i he⟩
  · simpa only [Shutdown.Counts, hpc, hstatus] using h.counts
  · have hchecks := h.checks
    simp only [Checks, hpc, hcancelled] at hchecks ⊢
    cases hsh : sh.pc with
    | cancel i | kill i =>
      simp only [hsh] at hchecks ⊢
      intro k hk
      exact (hchecks k hk).imp_left (hleaving (by simp [hsh]) k)
    | free =>
      simp only [hsh] at hchecks ⊢
      intro k hk
      exact (hchecks k hk).imp_left (hleaving (by simp [hsh]) k)
    | freed => exact absurd hsh hfreed
    | _ => trivial
  · intro i hi
    simp only [hcancelled] at hi
    obtain ⟨hs, ho, he⟩ := h.cancelled i hi
    have hne := hbehind i hs
    exact ⟨by simpa only [hstatus] using hs, hover hne i ho he, hending hne i he⟩
  · intro i hi
    have hkill : sh.pc = .kill i := hpc ▸ hi
    have hne : sh.pc ≠ .running := by simp [hkill]
    obtain ⟨ho, he⟩ := h.doomed i hkill
    exact ⟨hover hne i ho he, hending hne i he⟩
  · simpa only [htouched, hcancelled] using h.touched

theorem Winding.touch (h : Winding cfg endwaittime (s, sh)) {i : Nat} (hfreed : sh.pc = .freed)
    (hi : i < cfg.threadCount) (hpc : (s.slot i).pc ≠ .exited) :
    Winding cfg endwaittime (s, { sh with touched := Function.update sh.touched i true }) := by
  have hchecks := h.checks
  simp only [Checks, hfreed] at hchecks
  refine { h with touched := ?_ }
  intro j hj
  obtain rfl | hold := update_true_eq_true.mp hj
  · exact (hchecks j hi).resolve_left hpc
  · exact h.touched j hold

/-- Time passes. -/
theorem Winding.tick (h : Winding cfg endwaittime (s, sh)) (d : Nat) :
    Winding cfg endwaittime (s, { sh with now := sh.now + d }) := by
  have hlater : ∀ {t : Nat}, t ≤ sh.now → t ≤ sh.now + d := fun ht =>
    Nat.le_trans ht (Nat.le_add_right ..)
  refine { h with
    begun := ?_, stamp := ?_, reading := ?_, status := ?_, cancelled := ?_, doomed := ?_ }
  · intro i t ht
    exact hlater (h.begun i t ht)
  · intro i
    have hstamping := h.stamp i
    rw [Shutdown.Stamping] at hstamping ⊢
    dsimp only
    split <;> simp_all [Shutdown.Stamped]
  · have hreading := h.reading
    rw [Shutdown.Reading] at hreading ⊢
    dsimp only
    split <;> simp_all [Shutdown.BegunBy]
  · intro i hi
    exact (h.status i hi).imp_right fun ⟨ho, he⟩ => ⟨ho.tick d, he⟩
  · intro i hi
    obtain ⟨hs, ho, he⟩ := h.cancelled i hi
    exact ⟨hs, ho.tick d, he⟩
  · intro i hi
    obtain ⟨ho, he⟩ := h.doomed i hi
    exact ⟨ho.tick d, he⟩

/-- The steps of a worker that sets its `begin_time`. -/
theorem stampStep_cases {i : Nat} (h : sh.stampStep i = some sh') :
    sh.stamp i = .none ∧
      sh' = { sh with stamp := Function.update sh.stamp i (.read sh.now) } ∨
    (∃ t, sh.stamp i = .read t ∧
      sh' = { sh with
        stamp := Function.update sh.stamp i (.sec t)
        beginSec := Function.update sh.beginSec i (tvSec t)
        restamped := Function.update sh.restamped i true }) ∨
    ∃ t, sh.stamp i = .sec t ∧
      sh' = { sh with
        stamp := Function.update sh.stamp i (.stored t)
        beginNsec := Function.update sh.beginNsec i (tvNsec t)
        restamped := Function.update sh.restamped i true } := by
  rw [Shutdown.stampStep] at h
  split at h
  · next hstamp => exact .inl ⟨hstamp, (Option.some.inj h).symm⟩
  · next t hstamp => exact .inr (.inl ⟨t, hstamp, (Option.some.inj h).symm⟩)
  · next t hstamp => exact .inr (.inr ⟨t, hstamp, (Option.some.inj h).symm⟩)
  · cases h

theorem stampStep_fields {i : Nat} (h : sh.stampStep i = some sh') :
    sh'.pc = sh.pc ∧ sh'.now = sh.now ∧ sh'.threadStatus = sh.threadStatus ∧
      sh'.cancelled = sh.cancelled ∧ sh'.touched = sh.touched ∧ sh'.started = sh.started ∧
      sh'.ran = sh.ran := by
  obtain ⟨-, rfl⟩ | ⟨t, -, rfl⟩ | ⟨t, -, rfl⟩ := stampStep_cases h <;>
    exact ⟨rfl, rfl, rfl, rfl, rfl, rfl, rfl⟩

/-- The other workers' words stay as they are. -/
theorem stampStep_of_ne {i j : Nat} (h : sh.stampStep i = some sh') (hij : j ≠ i) :
    sh'.stamp j = sh.stamp j ∧ sh'.beginSec j = sh.beginSec j ∧
      sh'.beginNsec j = sh.beginNsec j ∧ sh'.restamped j = sh.restamped j := by
  obtain ⟨-, rfl⟩ | ⟨t, -, rfl⟩ | ⟨t, -, rfl⟩ := stampStep_cases h <;>
    simp [Function.update_of_ne hij]

/-- The worker's own words stay as they are, and nothing new has been stored, or it counts as one
that has stored. -/
theorem stampStep_self {i : Nat} (h : sh.stampStep i = some sh')
    (hfresh : sh'.restamped i = false) :
    sh.restamped i = false ∧ sh'.beginSec i = sh.beginSec i ∧ ∀ t, sh'.stamp i ≠ .stored t := by
  obtain ⟨-, rfl⟩ | ⟨t, -, rfl⟩ | ⟨t, -, rfl⟩ := stampStep_cases h
  · refine ⟨hfresh, rfl, fun t => ?_⟩
    simp
  · simp at hfresh
  · simp at hfresh

theorem Shutdown.BegunBy.stampStep {i j timenow : Nat} (hby : sh.BegunBy j timenow)
    (h : sh.stampStep i = some sh') : sh'.BegunBy j timenow := by
  obtain ⟨-, hnow, -, -, -, hstarted, -⟩ := stampStep_fields h
  refine ⟨hnow ▸ hby.1, fun hfresh t ht => ?_⟩
  by_cases hij : j = i
  · subst hij
    obtain ⟨hfresh', -, hnot⟩ := stampStep_self h hfresh
    exact hby.2 hfresh' t (.inr (hstarted ▸ ht.resolve_left (hnot t)))
  · obtain ⟨hstamp, -, -, hrestamped⟩ := stampStep_of_ne h hij
    rw [hstamp, hstarted] at ht
    exact hby.2 (hrestamped ▸ hfresh) t ht

theorem Shutdown.Reading.stampStep {i : Nat} (hreading : sh.Reading)
    (h : sh.stampStep i = some sh') : sh'.Reading := by
  obtain ⟨hpc, -⟩ := stampStep_fields h
  rw [Shutdown.Reading] at hreading ⊢
  rw [hpc]
  split
  · next j _ timenow heq =>
    rw [heq] at hreading
    exact hreading.stampStep h
  · next j _ timenow seconds heq =>
    rw [heq] at hreading
    refine ⟨hreading.1.stampStep h, fun hfresh => ?_⟩
    by_cases hij : j = i
    · subst hij
      obtain ⟨hfresh', hsec, -⟩ := stampStep_self h hfresh
      rw [hsec]
      exact hreading.2 hfresh'
    · obtain ⟨-, hsec, -, hrestamped⟩ := stampStep_of_ne h hij
      rw [hsec]
      exact hreading.2 (hrestamped ▸ hfresh)
  · trivial

theorem Shutdown.Stamping.stampStep {i : Nat} (hstamping : sh.Stamping i)
    (h : sh.stampStep i = some sh') : sh'.Stamping i := by
  rw [Shutdown.Stamping] at hstamping
  obtain ⟨-, rfl⟩ | ⟨t, hstamp, rfl⟩ | ⟨t, hstamp, rfl⟩ := stampStep_cases h
  · simp [Shutdown.Stamping]
  · rw [hstamp] at hstamping
    simpa [Shutdown.Stamping] using hstamping
  · rw [hstamp] at hstamping
    simpa [Shutdown.Stamping, Shutdown.Stamped] using hstamping

/-- A worker sets its `begin_time`, which it does outside its jobs. -/
theorem Winding.stampStep (h : Winding cfg endwaittime (s, sh)) {i : Nat}
    (hpc : (s.slot i).pc = .takeSocket) (hstep : sh.stampStep i = some sh') :
    Winding cfg endwaittime (s, sh') := by
  obtain ⟨hpc', hnow, hstatus, hcancelled, htouched, hstarted, hran⟩ := stampStep_fields hstep
  have hover : ∀ j, sh.Overran endwaittime j → sh'.Overran endwaittime j := by
    intro j hj
    simpa only [Shutdown.Overran, hstarted, hran, hnow] using hj
  refine ⟨h.late, h.busy, ?_, ?_, ?_, h.reading.stampStep hstep, ?_, ?_, ?_, ?_, ?_, ?_, ?_, ?_⟩
  · intro j hin
    have hij : j ≠ i := fun hji => by
      subst hji
      simp [hpc, WorkerPc.inJob] at hin
    obtain ⟨t, hsome, hwords⟩ := h.job j hin
    obtain ⟨-, hsec, hnsec, -⟩ := stampStep_of_ne hstep hij
    exact ⟨t, hstarted ▸ hsome, hsec.trans hwords.1, hnsec.trans hwords.2⟩
  · intro j t ht
    rw [hnow]
    exact h.begun j t (hstarted ▸ ht)
  · intro j
    by_cases hij : j = i
    · subst hij
      exact (h.stamp j).stampStep hstep
    · obtain ⟨hstamp, hsec, hnsec, -⟩ := stampStep_of_ne hstep hij
      simpa only [Shutdown.Stamping, hstamp, hnow, Shutdown.Stamped, hsec, hnsec] using h.stamp j
  · simpa only [hpc'] using h.behind
  · simpa only [hpc', hstatus] using h.running
  · intro j hj
    exact (h.status j (hstatus ▸ hj)).imp_right fun ⟨ho, he⟩ => ⟨hover j ho, he⟩
  · simpa only [Shutdown.Counts, hpc', hstatus] using h.counts
  · simpa only [Checks, hpc', hcancelled] using h.checks
  · intro j hj
    obtain ⟨hs, ho, he⟩ := h.cancelled j (hcancelled ▸ hj)
    exact ⟨hstatus ▸ hs, hover j ho, he⟩
  · intro j hj
    obtain ⟨ho, he⟩ := h.doomed j (hpc' ▸ hj)
    exact ⟨hover j ho, he⟩
  · simpa only [htouched, hcancelled] using h.touched

/-- `tst_main` goes on. -/
theorem Winding.goOn (h : Winding cfg endwaittime (s, sh)) {pc : ShutdownPc}
    (hdone : s.main = .done) (hpc : pc ≠ .running) (hkill : ∀ i, pc ≠ .kill i)
    (hreading : ({ sh with pc } : Shutdown).Reading)
    (hcounts : ({ sh with pc } : Shutdown).Counts cfg) (hchecks : Checks cfg (s, { sh with pc })) :
    Winding cfg endwaittime (s, { sh with pc }) :=
  { h with
    reading := hreading
    behind := fun _ => hdone
    running := fun hrunning => absurd hrunning hpc
    counts := hcounts
    checks := hchecks
    doomed := fun i hi => absurd hi (hkill i) }

/-- A worker counts as finished. -/
theorem Winding.finish (h : Winding cfg endwaittime (s, sh)) {i count : Nat} {look : Look}
    (hpc : sh.pc = .wait i count look) (hi : i < cfg.threadCount)
    (hfinished : Finished endwaittime (s, sh) i) :
    Winding cfg endwaittime (s, sh.finish i count) := by
  have hcounts := h.counts
  simp only [Shutdown.Counts, hpc] at hcounts
  obtain ⟨-, hle, hall⟩ := hcounts
  refine { h with
    reading := trivial, behind := fun _ => h.behind (by simp [hpc]), running := ?_, status := ?_
    counts := ?_, checks := trivial, cancelled := ?_, doomed := fun _ hkill => by cases hkill }
  · intro hrunning
    cases hrunning
  · intro j hj
    obtain rfl | hold := update_true_eq_true.mp hj
    · exact hfinished
    · exact h.status j hold
  · refine ⟨hi, Nat.succ_le_succ hle, fun heq j hj => ?_⟩
    obtain hlt | rfl : j < i ∨ j = i := by omega
    · exact update_true_eq_true.mpr (.inr (hall (Nat.succ.inj heq) j hlt))
    · exact update_true_eq_true.mpr (.inl rfl)
  · intro j hj
    obtain ⟨hs, ho, he⟩ := h.cancelled j hj
    exact ⟨update_true_eq_true.mpr (.inr hs), ho, he⟩

/-- A worker that has not stored `tst_exited` is to be cancelled: it has been counted for its
job. -/
theorem Winding.condemn (h : Winding cfg endwaittime (s, sh)) {i : Nat} (hpc : sh.pc = .cancel i)
    (hi : i < cfg.threadCount) (hstat : (s.slot i).stat ≠ .exited) :
    Winding cfg endwaittime (s, { sh with pc := .kill i }) := by
  have hcounts := h.counts
  have hchecks := h.checks
  simp only [Shutdown.Counts, Checks, hpc] at hcounts hchecks
  refine { h with
    reading := trivial, behind := fun _ => h.behind (by simp [hpc])
    running := fun hrunning => by cases hrunning
    counts := ⟨hi, hcounts⟩, checks := hchecks, doomed := ?_ }
  intro j hj
  obtain rfl := ShutdownPc.kill.inj hj
  obtain hleaving | hover := h.status i (hcounts i hi)
  · simp [Slot.leaving, hstat] at hleaving
  · exact hover

/-- A worker is cancelled. -/
theorem Winding.cancel (h : Winding cfg endwaittime (s, sh)) {i : Nat} (hpc : sh.pc = .kill i) :
    Winding cfg endwaittime (s, { sh with
      cancelled := Function.update sh.cancelled i true
      pc := .cancel (i + 1) }) := by
  have hcounts := h.counts
  have hchecks := h.checks
  simp only [Shutdown.Counts, Checks, hpc] at hcounts hchecks
  obtain ⟨hi, hall⟩ := hcounts
  have hkeep : ∀ j, sh.cancelled j = true → Function.update sh.cancelled i true j = true :=
    fun j hj => update_true_eq_true.mpr (.inr hj)
  refine { h with
    reading := trivial, behind := fun _ => h.behind (by simp [hpc])
    running := fun hrunning => by cases hrunning
    counts := hall, checks := ?_, cancelled := ?_, doomed := fun _ hkill => by cases hkill
    touched := fun j hj => hkeep j (h.touched j hj) }
  · intro j hj
    by_cases hij : j = i
    · subst hij
      exact .inr (Function.update_self ..)
    · exact (hchecks j (by omega)).imp_right (hkeep j)
  · intro j hj
    obtain rfl | hold := update_true_eq_true.mp hj
    · exact ⟨hall j hi, h.doomed j hpc⟩
    · exact h.cancelled j hold

/-- A worker whose time is over has a job that has taken long enough. -/
theorem Winding.overran (h : Winding cfg endwaittime (s, sh)) (hwait : endwaittime ≤ 2 ^ 53)
    {i count timenow : Nat} {seconds : UInt32} (hpc : sh.pc = .wait i count (.nsec timenow seconds))
    (hjob : (s.slot i).pc.inJob = true) (hfresh : sh.restamped i = false)
    (helapsed : endwaittime ≤ (elapsed timenow seconds (sh.beginNsec i)).toNat) :
    sh.Overran endwaittime i := by
  have hreading := h.reading
  simp only [Shutdown.Reading, hpc] at hreading
  obtain ⟨⟨hnow, hbegun⟩, hseconds⟩ := hreading
  obtain ⟨t, hstarted, hsec, hnsec⟩ := h.job i hjob
  rw [hseconds hfresh, hsec, hnsec] at helapsed
  have hover := elapsed_le (hbegun hfresh t (.inr hstarted)) hwait helapsed
  have hcurrent : sh.started i = some t := hstarted
  simp only [Shutdown.Overran, hcurrent]
  exact Nat.le_trans hover hnow

/-- The wait loop looks at a worker. -/
theorem Winding.look (h : Winding cfg endwaittime (s, sh)) (hwait : endwaittime ≤ 2 ^ 53)
    {i count : Nat} {look : Look} (hpc : sh.pc = .wait i count look) (hi : i < cfg.threadCount)
    (hfound : sh.found endwaittime (s.slot i) i look = true) :
    Winding cfg endwaittime (s, sh.look endwaittime (s.slot i) i count look) := by
  have hdone : s.main = .done := h.behind (by simp [hpc])
  have hcounts := h.counts
  have hreading := h.reading
  simp only [Shutdown.Counts, hpc] at hcounts
  simp only [Shutdown.Reading, hpc] at hreading
  have ⟨_, hle, hall⟩ := hcounts
  have hnext : ({ sh with pc := .wait (i + 1) count .stat } : Shutdown).Counts cfg :=
    ⟨hi, by omega, fun heq => by omega⟩
  cases look with
  | stat =>
    rw [Shutdown.look]
    by_cases hstatus : sh.threadStatus i = true
    · rw [if_pos hstatus]
      refine h.goOn hdone (by simp) (by simp) trivial
        ⟨hi, Nat.succ_le_succ hle, fun heq j hj => ?_⟩ trivial
      by_cases hij : j = i
      · exact hij ▸ hstatus
      · exact hall (Nat.succ.inj heq) j (by omega)
    · rw [if_neg hstatus]
      by_cases hstat : (s.slot i).stat < .exit
      · rw [if_neg (not_not_intro hstat)]
        exact h.goOn hdone (by simp) (by simp) trivial hcounts trivial
      · rw [if_pos hstat]
        simp only [Shutdown.found, hstatus, hstat, Bool.false_or, decide_false] at hfound
        exact h.finish hpc hi (.inl hfound)
  | clock =>
    -- from here on it is recorded whether the worker stores into its `begin_time`
    have hnew : ({ sh with
        restamped := Function.update sh.restamped i false
        pc := .wait i count (.sec sh.now) } : Shutdown).BegunBy i sh.now := by
      refine ⟨Nat.le_refl _, fun _ t ht => ?_⟩
      obtain hstored | hstarted := ht
      · have hwords : sh.stamp i = .stored t := hstored
        have hstamping : sh.Stamping i := h.stamp i
        simp only [Shutdown.Stamping, hwords] at hstamping
        exact hstamping.1
      · exact h.begun i t hstarted
    exact { h with
      reading := hnew
      behind := fun _ => hdone
      running := fun hrunning => by cases hrunning
      counts := hcounts
      checks := trivial
      doomed := fun _ hkill => by cases hkill }
  | sec timenow =>
    exact h.goOn hdone (by simp) (by simp) ⟨hreading, fun _ => rfl⟩ hcounts trivial
  | nsec timenow seconds =>
    rw [Shutdown.look]
    split
    · next helapsed =>
      simp only [Shutdown.found, Nat.not_lt.mpr helapsed, decide_false, Bool.false_or,
        Bool.and_eq_true, Bool.not_eq_true'] at hfound
      obtain ⟨hjob, hfresh⟩ := hfound
      refine h.finish hpc hi (.inr ⟨h.overran hwait hpc hjob hfresh helapsed, ?_⟩)
      simp only [WorkerPc.ending, hjob, Bool.true_or]
    · exact h.goOn hdone (by simp) (by simp) trivial hnext trivial

theorem Winding.main (h : Winding cfg endwaittime (s, sh)) (hwait : endwaittime ≤ 2 ^ 53)
    (hok : settled cfg endwaittime (s, sh) .main = true)
    (hstep : sh.step cfg endwaittime s = some sh') : Winding cfg endwaittime (s, sh') := by
  have hcounts := h.counts
  have hchecks := h.checks
  rw [Shutdown.step] at hstep
  cases hpc : sh.pc with
  | running =>
    simp only [hpc, Option.ite_none_right_eq_some, Option.some.injEq] at hstep
    obtain ⟨hdone, rfl⟩ := hstep
    exact h.goOn hdone (by simp) (by simp) trivial trivial trivial
  | sleep =>
    simp only [hpc, Option.some.injEq] at hstep
    subst hstep
    exact h.goOn (h.behind (by simp [hpc])) (by simp) (by simp) trivial
      ⟨Nat.zero_le _, le_rfl, fun _ j hj => absurd hj (Nat.not_lt_zero j)⟩ trivial
  | wait i count look =>
    simp only [hpc] at hstep
    split at hstep
    · next hi =>
      obtain rfl := Option.some.inj hstep
      refine h.look hwait hpc hi ?_
      simpa [settled, hpc, hi] using hok
    · next hi =>
      simp only [Shutdown.Counts, hpc] at hcounts
      obtain ⟨hi', hle, hall⟩ := hcounts
      split at hstep
      · obtain rfl := Option.some.inj hstep
        exact h.goOn (h.behind (by simp [hpc])) (by simp) (by simp) trivial trivial trivial
      · next hcount =>
        obtain rfl := Option.some.inj hstep
        refine h.goOn (h.behind (by simp [hpc])) (by simp) (by simp) trivial (fun j hj => ?_)
          fun j hj => absurd hj (Nat.not_lt_zero j)
        exact hall (by omega) j (by omega)
  | cancel i =>
    simp only [Shutdown.Counts, Checks, hpc] at hcounts hchecks
    simp only [hpc] at hstep
    split at hstep
    · next hi =>
      split at hstep
      · next hstat =>
        obtain rfl := Option.some.inj hstep
        refine h.goOn (h.behind (by simp [hpc])) (by simp) (by simp) trivial hcounts fun j hj => ?_
        by_cases hij : j = i
        · subst hij
          -- the result of its job has been stored, and was `tst_exited`
          have hending : (s.slot j).pc.ending = true :=
            (h.status j (hcounts j hi)).elim Slot.ending_of_leaving And.right
          exact .inl (Slot.leaving_of_ending hending hstat (h.busy j))
        · exact hchecks j (by omega)
      · next hstat =>
        obtain rfl := Option.some.inj hstep
        exact h.condemn hpc hi hstat
    · next hi =>
      obtain rfl := Option.some.inj hstep
      refine h.goOn (h.behind (by simp [hpc])) (by simp) (by simp) trivial hcounts fun j hj => ?_
      exact hchecks j (by omega)
  | kill i =>
    simp only [hpc, Option.some.injEq] at hstep
    subst hstep
    exact h.cancel hpc
  | free =>
    simp only [Shutdown.Counts, Checks, hpc] at hcounts hchecks
    simp only [hpc, Option.some.injEq] at hstep
    subst hstep
    have hexited : ∀ j < cfg.threadCount, (s.slot j).stat = .exited → (s.slot j).pc = .exited := by
      simpa [settled, hpc] using hok
    refine h.goOn (h.behind (by simp [hpc])) (by simp) (by simp) trivial hcounts fun j hj => ?_
    exact (hchecks j hj).imp_left fun hleaving => hexited j hj (Slot.stat_of_leaving hleaving)
  | freed => simp [hpc] at hstep

theorem Winding.step {p p' : State × Shutdown} {a : ShutdownAction} (h : Winding cfg endwaittime p)
    (hwait : endwaittime ≤ 2 ^ 53) (hok : settled cfg endwaittime p a = true)
    (hstep : shutdownStep cfg endwaittime p a = some p') : Winding cfg endwaittime p' := by
  obtain ⟨s, sh⟩ := p
  cases a with
  | pool a =>
    cases a with
    | worker i inp =>
      simp only [shutdownStep, Option.ite_none_left_eq_some] at hstep
      obtain ⟨-, hstep⟩ := hstep
      split at hstep
      · next hfreed =>
        obtain ⟨s', hs', rfl⟩ := Option.map_eq_some_iff.mp hstep
        simp only [Pool.step, Option.ite_none_right_eq_some] at hs'
        obtain ⟨hi, hs'⟩ := hs'
        refine h.touch hfreed hi fun hpc => ?_
        simp [workerStep, Slot.step, hpc] at hs'
      · next hfreed =>
        obtain ⟨s', hs', hstep⟩ := Option.bind_eq_some_iff.mp hstep
        obtain ⟨sh', htime, rfl⟩ := Option.map_eq_some_iff.mp hstep
        simp only [Pool.step, Option.ite_none_right_eq_some] at hs'
        exact h.worker hfreed (workerStep_cases hs'.2) htime
    | _ =>
      simp only [shutdownStep, Option.map_eq_some_iff] at hstep
      obtain ⟨s', hs', rfl⟩ := hstep
      exact h.stays (step_stays (by simp) hs')
  | stamp i =>
    simp only [shutdownStep, Option.ite_none_right_eq_some] at hstep
    obtain ⟨⟨-, hi, hpc⟩, hstep⟩ := hstep
    split at hstep
    · next hfreed =>
      obtain rfl := Option.some.inj hstep
      exact h.touch hfreed hi (by simp [hpc])
    · obtain ⟨sh', hsh', rfl⟩ := Option.map_eq_some_iff.mp hstep
      exact h.stampStep hpc hsh'
  | tick d =>
    obtain rfl := Option.some.inj hstep
    exact h.tick d
  | main =>
    obtain ⟨sh', hsh', rfl⟩ := Option.map_eq_some_iff.mp hstep
    exact h.main hwait hok hsh'
  | die i =>
    simp only [shutdownStep, Option.ite_none_right_eq_some, Option.some.injEq] at hstep
    obtain ⟨-, rfl⟩ := hstep
    exact { h with }

theorem Winding.init (cfg : Config) (endwaittime now : Nat) :
    Winding cfg endwaittime (.init cfg, { now }) := by
  have hmain : (State.init cfg).main = .loop := by
    rw [State.init]
    split <;> rfl
  have hslot : ∀ i, (State.init cfg).slot i = {} := by
    intro i
    rw [State.init]
    split <;> rfl
  constructor <;>
    simp [hmain, hslot, MainPc.late, WorkerPc.busy, WorkerPc.inJob, Shutdown.Stamping,
      Shutdown.Reading, Shutdown.Counts, Checks]

theorem Winding.shutsDown {p : State × Shutdown} (h : Winding cfg endwaittime p) :
    ShutsDown cfg endwaittime p where
  cancelled i hi := (h.cancelled i hi).2.1
  freed hpc := by
    have hchecks := h.checks
    simpa only [Checks, hpc] using hchecks
  touched := h.touched

end Winding

/-- In every run whose steps are settled `tst_main` cancels a worker only when its job has taken at
least `m_endwaittime`, and frees `m_workers` only when every other worker has made its last access
to its slot. -/
theorem shuts_down (cfg : Config) (endwaittime now : Nat) (hwait : endwaittime ≤ 2 ^ 53)
    (as : List ShutdownAction) (p : State × Shutdown)
    (h : Exec (shutdownStep cfg endwaittime) (fun p a => settled cfg endwaittime p a = true)
      (.init cfg, { now }) as p) : ShutsDown cfg endwaittime p := by
  have hinv : Winding cfg endwaittime p := by
    apply h.invariant
    · intro p a p' hok hw hstep
      exact hw.step hwait hok hstep
    · exact .init cfg endwaittime now
  exact hinv.shutsDown

-- ════════════════════════════════════════════════════════════════════════
-- A server with two workers comes to its end
-- ════════════════════════════════════════════════════════════════════════

/-- `k` steps of worker `i`. -/
def walkRun (i k : Nat) : List ShutdownAction := List.replicate k (.pool (.worker i .go))

/-- `destroy()` is called, and `tst_main` makes `k` steps. -/
def stopRun (k : Nat) : List ShutdownAction := .pool .stop :: List.replicate k (.pool (.main .go))

/-- Worker `i` sets its `begin_time`. -/
def stampRun (i : Nat) : List ShutdownAction := List.replicate 3 (.stamp i)

/-- A connection comes in and sends, and worker 0 is told of it and sees `tst_run`. -/
def wakeRun : List ShutdownAction :=
  (acceptRun 5 .suspend ++ assignRun 5 { epollin := true } ++ (jobRun 0 .suspend).take 4).map .pool

/-- `tst_main` sleeps for 0.1 seconds and makes `k` steps. -/
def lookRun (k : Nat) : List ShutdownAction := .tick 100000000 :: List.replicate k .main

/-- `tst_main` cancels worker 0, if it has not ended, and frees `m_workers`. -/
def freeRun (ended : Bool) : List ShutdownAction := List.replicate (if ended then 4 else 5) .main

/-- A worker is in a job for five seconds and is cancelled. The other one ends by itself. -/
theorem shuts_down_server : ∃ p, ShutsDown .server 5000000000 p ∧ p.2.pc = .freed ∧
    p.2.cancelled 0 = true ∧ (p.1.slot 1).pc = .exited := by
  have hrun : ((check (shutdownStep .server 5000000000)
      (fun p a => settled .server 5000000000 p a = true) (.init .server, { now := 10000000000 })
      (wakeRun ++ stampRun 0 ++ walkRun 0 1 ++ stopRun 6 ++ walkRun 1 2 ++
        [.main] ++ lookRun 7 ++ [.tick 4900000000] ++ lookRun 7 ++ freeRun false)).any fun p =>
      p.2.pc = .freed ∧ p.2.cancelled 0 = true ∧ (p.1.slot 1).pc = .exited) = true := by
    decide +kernel
  obtain ⟨p, hexec, hp⟩ := Exec.exists_of_check hrun
  exact ⟨p, shuts_down .server 5000000000 10000000000 (by decide) _ p hexec, of_decide_eq_true hp⟩

/-- Four workers that would end by themselves: one that has been told to exit and does not wake up
within 0.1 seconds is cancelled, one that has never had a job and is in the idle function, and one
whose job begins in the next second after `tst_main` has read the clock, so that the seconds are
-1. One that has stored `tst_exited` stores it once more, behind the `free()`. -/
theorem shutdown_cuts_short :
    (∃ as p, Exec (shutdownStep .server 5000000000) (fun _ _ => True)
        (.init .server, { now := 10000000000 }) as p ∧
      p.2.cancelled 0 = true ∧ (p.1.slot 0).pc = .waiting ∧ p.2.touched 0 = true ∧
      ¬ p.2.Overran 5000000000 0) ∧
    (∃ as p, Exec (shutdownStep .server 5000000000) (fun _ _ => True)
        (.init .server, { now := 10000000000 }) as p ∧
      p.2.cancelled 0 = true ∧ (p.1.slot 0).pc = .idleCall ∧ ¬ p.2.Overran 5000000000 0) ∧
    (∃ as p, Exec (shutdownStep .server 5000000000) (fun _ _ => True)
        (.init .server, { now := 10899999900 }) as p ∧
      p.2.cancelled 0 = true ∧ (p.1.slot 0).pc.inJob = true ∧ ¬ p.2.Overran 5000000000 0) ∧
    ∃ as p, Exec (shutdownStep .server 5000000000) (fun _ _ => True)
        (.init .server, { now := 10000000000 }) as p ∧
      p.2.touched 0 = true ∧ p.2.cancelled 0 = false := by
  have hwaiting : ((check (shutdownStep .server 5000000000) (fun _ _ => True)
      (.init .server, { now := 10000000000 })
      (walkRun 0 2 ++ stopRun 7 ++ walkRun 1 2 ++ [.main] ++ lookRun 4 ++ freeRun false ++
        [.pool (.worker 0 (.waited .signaled))])).any fun p =>
      p.2.cancelled 0 = true ∧ (p.1.slot 0).pc = .waiting ∧ p.2.touched 0 = true ∧
        p.2.started 0 = none ∧ p.2.ran 0 = 0) = true := by
    decide +kernel
  have hidle : ((check (shutdownStep .server 5000000000) (fun _ _ => True)
      (.init .server, { now := 10000000000 })
      (walkRun 0 2 ++ [.pool (.worker 0 (.waited .timedOut))] ++ walkRun 0 3 ++ stopRun 6 ++
        walkRun 1 2 ++ [.main] ++ lookRun 7 ++ freeRun false)).any fun p =>
      p.2.cancelled 0 = true ∧ (p.1.slot 0).pc = .idleCall ∧ p.2.started 0 = none ∧
        p.2.ran 0 = 0) = true := by
    decide +kernel
  have hbegun : ((check (shutdownStep .server 5000000000) (fun _ _ => True)
      (.init .server, { now := 10899999900 })
      (wakeRun ++ stopRun 6 ++ walkRun 1 2 ++ [.main] ++ lookRun 3 ++ [.tick 200] ++ stampRun 0 ++
        walkRun 0 1 ++ List.replicate 4 .main ++ freeRun false)).any fun p =>
      p.2.cancelled 0 = true ∧ (p.1.slot 0).pc.inJob = true ∧ p.2.started 0 = some 11000000100 ∧
        p.2.now = 11000000100) = true := by
    decide +kernel
  have hmarked : ((check (shutdownStep .server 5000000000) (fun _ _ => True)
      (.init .server, { now := 10000000000 })
      (walkRun 0 2 ++ stopRun 7 ++ [.pool (.worker 0 (.waited .signaled))] ++ walkRun 0 4 ++
        walkRun 1 2 ++ [.main] ++ lookRun 4 ++ freeRun true ++ walkRun 0 1)).any fun p =>
      p.2.touched 0 = true ∧ p.2.cancelled 0 = false) = true := by
    decide +kernel
  -- without a job there is no time that it could have taken
  have hshort : ∀ sh : Shutdown, sh.started 0 = none → sh.ran 0 = 0 →
      ¬ sh.Overran 5000000000 0 := by
    intro sh hstarted hran hover
    simp [Shutdown.Overran, hstarted, hran] at hover
  refine ⟨?_, ?_, ?_, ?_⟩
  · obtain ⟨p, hexec, hp⟩ := Exec.exists_of_check hwaiting
    obtain ⟨hcancelled, hpc, htouched, hstarted, hran⟩ := of_decide_eq_true hp
    exact ⟨_, p, hexec, hcancelled, hpc, htouched, hshort p.2 hstarted hran⟩
  · obtain ⟨p, hexec, hp⟩ := Exec.exists_of_check hidle
    obtain ⟨hcancelled, hpc, hstarted, hran⟩ := of_decide_eq_true hp
    exact ⟨_, p, hexec, hcancelled, hpc, hshort p.2 hstarted hran⟩
  · obtain ⟨p, hexec, hp⟩ := Exec.exists_of_check hbegun
    obtain ⟨hcancelled, hjob, hstarted, hnow⟩ := of_decide_eq_true hp
    refine ⟨_, p, hexec, hcancelled, hjob, fun hover => ?_⟩
    simp [Shutdown.Overran, hstarted, hnow] at hover
  · obtain ⟨p, hexec, hp⟩ := Exec.exists_of_check hmarked
    exact ⟨_, p, hexec, of_decide_eq_true hp⟩

end Tst.Pool
