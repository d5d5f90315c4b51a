import Tst.Lib.Execution
import Tst.Lib.Handle
import Tst.Pool.Step

/-!
# Who closes a descriptor

`closesocket()` is called by `tst_main`, by a worker whose user function has answered
`tst_disconnect`, and by other threads. It takes the entry out of `m_connect` under the mutex, and
closes the number behind it, whether or not there was an entry.

## Main definitions

- `Closer`, `Closes` — the parties, and what they have taken out and closed
- `recordedStep` — one step of the pool, with this history
- `ClosedOnce` — every close is of the connection that has been taken out, and nothing is closed
  twice
- `findsEntry` — `closesocket()` finds an entry for the number that it is called with

## Main results

- `closed_once` — so it is in every run in which all calls find an entry
- `closes_other_connection` — a call that finds none closes the connection that has the number by
  then
-/

namespace Tst.Pool

open Execution Handle Update

/-- The parties that call `closesocket()`. -/
inductive Closer
  | main
  | worker (i : Nat)
  | other (k : Nat)
  deriving DecidableEq, Repr

/-- The call of `closesocket()` that the party is in. -/
def State.closing (s : State) : Closer → Option Closing
  | .main =>
    match s.main with
    | .closing cl _ => some cl
    | _ => none
  | .worker i =>
    match (s.slot i).pc with
    | .closing cl _ => some cl
    | _ => none
  | .other k => s.others k

/-- The party that makes the step. -/
def Action.closer : Action → Option Closer
  | .main _ => some .main
  | .worker i _ => some (.worker i)
  | .othersStep k => some (.other k)
  | _ => none

/-- The call of `closesocket()` that the step belongs to. -/
def State.closeCall (s : State) (a : Action) : Option (Closer × Closing) :=
  a.closer.bind fun k => (s.closing k).map fun cl => (k, cl)

/-- What the parties have taken out of `m_connect` and not closed yet, and for every `close()` so
far the connection that the call had taken out and what the number belonged to. -/
structure Closes where
  taken : Closer → Option (Fd × Endpoint) := fun _ => none
  closed : List (Option Endpoint × Option Endpoint) := []

/-- The history behind a step. -/
def Closes.next (h : Closes) (s : State) (a : Action) : Closes :=
  match s.closeCall a with
  | none => h
  | some (k, cl) =>
    match cl.phase with
    | .erase =>
      { h with
        taken := Function.update h.taken k ((s.connect cl.sd).map fun c => (cl.sd, .conn c)) }
    | .del => h
    | .close =>
      { taken := Function.update h.taken k none
        closed := h.closed ++ [((h.taken k).map Prod.snd, s.owner cl.sd)] }

/-- One step of the pool, with what has been taken out and closed. -/
def recordedStep (cfg : Config) (p : State × Closes) (a : Action) : Option (State × Closes) :=
  (step cfg p.1 a).map fun s => (s, p.2.next p.1 a)

/-- Every `close()` so far has closed the connection that the call had taken out of `m_connect`,
none has been closed twice, and each key of `m_connect` is the open descriptor of its
connection. -/
structure ClosedOnce (p : State × Closes) : Prop where
  own : ∀ x ∈ p.2.closed, ∃ c, x = (some (.conn c), some (.conn c))
  once : (p.2.closed.map Prod.snd).Nodup
  key : ∀ fd c, p.1.connect fd = some c → p.1.owner fd = some (.conn c) ∧ p.1.sd c = fd

/-- A call of `closesocket()` finds an entry when it looks its number up. -/
def findsEntry (p : State × Closes) (a : Action) : Bool :=
  (p.1.closeCall a).all fun (_, cl) =>
    cl.phase ≠ .erase || cl.sd = 0 || (p.1.connect cl.sd).isSome

-- ════════════════════════════════════════════════════════════════════════
-- What a step does to the descriptors
-- ════════════════════════════════════════════════════════════════════════

/-- The connection that `tst_main` has accepted and not entered in `m_connect` yet. -/
def MainPc.unlisted : MainPc → Option Conn
  | .accepted c | .add c | .closing _ (.add c) => some c
  | _ => none

/-- A step in its effect on the descriptors and on `m_connect`: it begins a call of
`closesocket()` at most, it accepts a connection, enters it in `m_connect`, or is a step of
`closesocket()`. -/
inductive Effect (s : State) (a : Action) (s' : State) : Prop
  | quiet (hcall : s.closeCall a = none) (howner : s'.owner = s.owner)
    (hconnect : s'.connect = s.connect) (hsd : s'.sd = s.sd) (hfresh : s'.fresh = s.fresh)
    (hclosing : ∀ k cl, s'.closing k = some cl → s.closing k = some cl ∨ cl.phase = .erase)
    (hunlisted : ∀ c, s'.main.unlisted = some c → s.main.unlisted = some c)
  | accept {fd : Fd} (hcall : s.closeCall a = none) (hpos : 0 < fd) (hfree : s.owner fd = none)
    (howner : s'.owner = Function.update s.owner fd (some (.conn s.fresh)))
    (hconnect : s'.connect = s.connect) (hsd : s'.sd = Function.update s.sd s.fresh fd)
    (hfresh : s'.fresh = s.fresh + 1)
    (hclosing : ∀ k cl, s'.closing k = some cl → s.closing k = some cl)
    (hunlisted : s'.main.unlisted = some s.fresh)
  | add {c : Conn} (hcall : s.closeCall a = none) (hmain : s.main.unlisted = some c)
    (howner : s'.owner = s.owner)
    (hconnect : s'.connect = Function.update s.connect (s.sd c) (some c)) (hsd : s'.sd = s.sd)
    (hfresh : s'.fresh = s.fresh)
    (hclosing : ∀ k cl, s'.closing k = some cl → s.closing k = some cl)
    (hunlisted : s'.main.unlisted = none)
  | call {k : Closer} {cl : Closing} (hcall : s.closeCall a = some (k, cl))
    (howner : s'.owner = (s.closeStep cl).1.owner)
    (hconnect : s'.connect = (s.closeStep cl).1.connect) (hsd : s'.sd = s.sd)
    (hfresh : s'.fresh = s.fresh) (hself : s'.closing k = (s.closeStep cl).2)
    (hothers : ∀ k', k' ≠ k → s'.closing k' = s.closing k')
    (hunlisted : ∀ c, s'.main.unlisted = some c → s.main.unlisted = some c)

section Effect

variable {cfg : Config} {s s' : State} {a : Action} {i : Nat}

theorem closing_main (hpc : ∀ cl after, s.main ≠ .closing cl after) : s.closing .main = none := by
  rw [State.closing]
  split
  · next cl after hmain => exact absurd hmain (hpc cl after)
  · rfl

theorem closing_worker (hpc : ∀ cl c, (s.slot i).pc ≠ .closing cl c) :
    s.closing (.worker i) = none := by
  rw [State.closing]
  split
  · next cl c hslot => exact absurd hslot (hpc cl c)
  · rfl

/-- The calls of the parties other than `tst_main`. -/
theorem closing_congr (hslot : ∀ i, (s'.slot i).pc = (s.slot i).pc) (hothers : s'.others = s.others)
    {k : Closer} (hk : k ≠ .main) : s'.closing k = s.closing k := by
  cases k with
  | main => exact absurd rfl hk
  | worker i => simp only [State.closing, hslot]
  | other k => simp only [State.closing, hothers]

/-- `tst_main` is outside `closesocket()`, and the others are where they were. -/
theorem closing_of_main (hmain : s'.closing .main = none)
    (hslot : ∀ i, (s'.slot i).pc = (s.slot i).pc) (hothers : s'.others = s.others) :
    ∀ k cl, s'.closing k = some cl → s.closing k = some cl := by
  intro k cl hcl
  by_cases hk : k = .main
  · rw [hk, hmain] at hcl
    cases hcl
  · exact closing_congr hslot hothers hk ▸ hcl

/-- A step of `tst_main` outside `closesocket()` that leaves the descriptors as they are. -/
theorem Effect.ofMain {inp : MainInput} (hpc : ∀ cl after, s.main ≠ .closing cl after)
    (howner : s'.owner = s.owner) (hconnect : s'.connect = s.connect) (hsd : s'.sd = s.sd)
    (hfresh : s'.fresh = s.fresh) (hothers : s'.others = s.others)
    (hslot : ∀ i, (s'.slot i).pc = (s.slot i).pc)
    (hmain : ∀ cl after, s'.main = .closing cl after → cl.phase = .erase)
    (hunlisted : ∀ c, s'.main.unlisted = some c → s.main.unlisted = some c) :
    Effect s (.main inp) s' := by
  have hcall : s.closeCall (.main inp) = none := by
    simp [State.closeCall, Action.closer, closing_main hpc]
  refine .quiet hcall howner hconnect hsd hfresh ?_ hunlisted
  intro k cl hcl
  by_cases hk : k = .main
  · subst hk
    refine .inr ?_
    rw [State.closing] at hcl
    split at hcl
    · next cl' after hafter => exact Option.some.inj hcl ▸ hmain cl' after hafter
    · cases hcl
  · exact .inl (closing_congr hslot hothers hk ▸ hcl)

/-- A step of `tst_main` in `closesocket()`. -/
theorem Effect.ofMainCall {inp : MainInput} {cl : Closing} {after : AfterClose} {pc : MainPc}
    {mainRun : Bool} (hpc : s.main = .closing cl after)
    (hself : ({ s with main := pc } : State).closing .main = (s.closeStep cl).2)
    (hunlisted : ∀ c, pc.unlisted = some c → s.main.unlisted = some c) :
    Effect s (.main inp) { (s.closeStep cl).1 with mainRun, main := pc } := by
  have hcall : s.closeCall (.main inp) = some (.main, cl) := by
    simp [State.closeCall, Action.closer, State.closing, hpc]
  obtain ⟨connect, owner, reg, hframe⟩ := closeStep_frame s cl
  refine .call hcall rfl rfl (closeStep_sd s cl) ?_ hself ?_ hunlisted
  · simp only [hframe]
  · intro k hk
    exact closing_congr (by simp) (by simp only [hframe]) hk

theorem mainStep_effect {inp : MainInput} (h : MainStep cfg s inp s') :
    Effect s (.main inp) s' := by
  cases h with
  | epollWait hpc hrun hbatch hdel =>
    obtain ⟨batch, reg, rfl⟩ := deliver_frame hdel
    obtain ⟨-, ht⟩ | ⟨e, rest, -, ht⟩ := takeEvent_cases { s with batch, reg }
    · rw [ht]
      exact .ofMain (by simp [hpc]) rfl rfl rfl rfl rfl (fun _ => rfl) (by simp [hpc]) (by simp)
    · rw [ht]
      exact .ofMain (by simp [hpc]) rfl rfl rfl rfl rfl (fun _ => rfl) (by simp)
        (by simp [MainPc.unlisted])
  | @accept e fd hpc hfd hlisten hpos hfree howner =>
    refine .accept (by simp [State.closeCall, Action.closer, State.closing, hpc]) hpos hfree rfl rfl
      ?_ rfl ?_ rfl
    · funext c
      by_cases hc : c = s.fresh
      · subst hc
        simp [State.sd]
      · simp [State.sd, hc]
    · exact closing_of_main rfl (fun _ => rfl) rfl
  | @add c hpc =>
    have hmain : s.main.unlisted = some c := by rw [hpc]; rfl
    exact .add (by simp [State.closeCall, Action.closer, State.closing, hpc]) hmain rfl rfl
      (setSock_sd (by simp [State.sd])) rfl (closing_of_main rfl (fun _ => rfl) rfl) rfl
  | @closing cl cl' after s₁ hpc hclose =>
    obtain ⟨hs₁, -⟩ := closeStep_rest hclose
    have hrest : (s.closeStep cl).2 = some cl' := by rw [hclose]
    subst hs₁
    exact .ofMainCall hpc hrest.symm (by rw [hpc]; cases after <;> simp [MainPc.unlisted])
  | @closed cl after s₁ hpc hclose =>
    obtain ⟨hs₁, -⟩ := closeStep_done hclose
    have hrest : (s.closeStep cl).2 = none := by rw [hclose]
    subst hs₁
    cases after with
    | add c =>
      exact .ofMainCall hpc hrest.symm (by rw [hpc]; simp [MainPc.unlisted])
    | refused c =>
      exact .ofMainCall hpc hrest.symm (by simp [MainPc.unlisted])
    | event e =>
      rw [State.afterClose]
      split
      · exact .ofMainCall hpc hrest.symm (by simp [MainPc.unlisted])
      · exact .ofMainCall hpc hrest.symm (by simp [MainPc.unlisted])
  | setSocket hpc =>
    exact .ofMain (by simp [hpc]) rfl rfl (setSock_sd (by simp [State.sd])) rfl rfl
      (forall_setSlot (P := fun j sl => sl.pc = (s.slot j).pc) rfl fun _ _ => rfl) (by simp)
      (by simp [MainPc.unlisted])
  | fconnected hpc =>
    exact .ofMain (by simp [hpc]) rfl rfl (setSock_sd rfl) rfl rfl (fun _ => rfl) (by simp)
      (by simp [MainPc.unlisted])
  | refuse hpc =>
    exact .ofMain (by simp [hpc]) rfl rfl (setSock_sd rfl) rfl rfl (fun _ => rfl) (by simp)
      (by simp [MainPc.unlisted])
  | setRun hpc | exitScanFree hpc | exitStore hpc =>
    exact .ofMain (by simp [hpc]) rfl rfl rfl rfl rfl
      (forall_setSlot (P := fun j sl => sl.pc = (s.slot j).pc) rfl fun _ _ => rfl) (by simp)
      (by simp [MainPc.unlisted])
  | _ =>
    exact .ofMain (by simp [*]) rfl rfl rfl rfl rfl (fun _ => rfl) (by simp)
      (by simp [*, MainPc.unlisted])

/-- A step of a worker outside `closesocket()`. -/
theorem Effect.ofWorker {inp : WorkerInput} {sl : Slot} {sock : Conn → TstSocket}
    {reg : Fd → Option Registration} {holds : Nat → Conn → Bool}
    (hpc : ∀ cl c, (s.slot i).pc ≠ .closing cl c) (hsd : ({ s with sock } : State).sd = s.sd)
    (hmain : ∀ cl c, sl.pc = .closing cl c → cl.phase = .erase) :
    Effect s (.worker i inp) (({ s with sock, reg, holds } : State).setSlot i sl) := by
  have hcall : s.closeCall (.worker i inp) = none := by
    simp [State.closeCall, Action.closer, closing_worker hpc]
  refine .quiet hcall rfl rfl hsd rfl ?_ fun _ hc => hc
  intro k cl hcl
  cases k with
  | main => exact .inl hcl
  | worker j =>
    by_cases hj : j = i
    · subst hj
      refine .inr ?_
      simp only [State.closing, State.setSlot, Function.update_self] at hcl
      split at hcl
      · next cl' c hslot => exact Option.some.inj hcl ▸ hmain cl' c hslot
      · cases hcl
    · refine .inl ?_
      simpa only [State.closing, State.setSlot, Function.update_of_ne hj] using hcl
  | other k => exact .inl hcl

/-- A step of a worker in `closesocket()`. -/
theorem Effect.ofWorkerCall {inp : WorkerInput} {cl : Closing} {c : Conn} {sl : Slot}
    (hpc : (s.slot i).pc = .closing cl c)
    (hself : (s.setSlot i sl).closing (.worker i) = (s.closeStep cl).2) :
    Effect s (.worker i inp) ((s.closeStep cl).1.setSlot i sl) := by
  have hcall : s.closeCall (.worker i inp) = some (.worker i, cl) := by
    simp [State.closeCall, Action.closer, State.closing, hpc]
  obtain ⟨connect, owner, reg, hframe⟩ := closeStep_frame s cl
  refine .call hcall rfl rfl (closeStep_sd s cl) ?_ ?_ ?_ ?_
  · simp only [State.setSlot, hframe]
  · simpa only [State.closing, State.setSlot, Function.update_self] using hself
  · intro k hk
    cases k with
    | main => simp only [State.closing, State.setSlot, closeStep_main]
    | worker j =>
      have hj : j ≠ i := fun hj => hk (hj ▸ rfl)
      simp only [State.closing, State.setSlot, closeStep_slot, Function.update_of_ne hj]
    | other k => simp only [State.closing, State.setSlot, hframe]
  · intro c hc
    simpa only [State.setSlot, closeStep_main] using hc

theorem Slot.Step.not_closing {workRun : Bool} {sl sl' : Slot} {inp : WorkerInput}
    (h : Slot.Step workRun sl inp sl') :
    (∀ cl c, sl.pc ≠ .closing cl c) ∧ ∀ cl c, sl'.pc ≠ .closing cl c := by
  cases h with
  | loop hpc | testWait hpc | waiting hpc | testRun hpc | testSuspend hpc | testExit hpc =>
    refine ⟨by simp [hpc], fun cl c => ?_⟩
    dsimp only
    split <;> simp
  | _ => exact ⟨by simp [*], by simp [*]⟩

theorem workerStep_effect {inp : WorkerInput} (h : WorkerStep s i inp s') :
    Effect s (.worker i inp) s' := by
  cases h with
  | own hsl =>
    obtain ⟨hpc, hpc'⟩ := hsl.not_closing
    exact .ofWorker hpc rfl fun cl c hcl => absurd hcl (hpc' cl c)
  | job hpc =>
    exact .ofWorker (by simp [hpc]) (setSock_sd (by simp [State.sd])) fun cl c => by
      dsimp only
      split <;> simp
  | call hpc => exact .ofWorker (by simp [hpc]) (setSock_sd rfl) (by simp)
  | rearmClose hpc => exact .ofWorker (by simp [hpc]) rfl (by simp)
  | rearm hpc => exact .ofWorker (by simp [hpc]) rfl (by simp)
  | rearmSkip hpc => exact .ofWorker (by simp [hpc]) rfl (by simp)
  | closing hpc hclose =>
    obtain ⟨hs₁, -⟩ := closeStep_rest hclose
    have hrest := congrArg Prod.snd hclose
    subst hs₁
    refine .ofWorkerCall hpc ?_
    simp [State.closing, hrest]
  | closed hpc hclose =>
    obtain ⟨hs₁, -⟩ := closeStep_done hclose
    have hrest := congrArg Prod.snd hclose
    subst hs₁
    refine .ofWorkerCall hpc ?_
    simp [State.closing, hrest]

/-- Every step of the pool is one of the kinds. -/
theorem step_effect (h : step cfg s a = some s') : Effect s a s' := by
  revert h
  fun_cases step cfg s a <;> intro h <;> try cases h
  · exact mainStep_effect (mainStep_cases h)
  · exact workerStep_effect (workerStep_cases h)
  · split
    · exact .quiet rfl rfl rfl rfl rfl (fun _ _ => .inl) fun _ => id
    · exact .quiet rfl rfl rfl rfl rfl (fun _ _ => .inl) fun _ => id
  · next k sd hnone =>
    refine .quiet rfl rfl rfl rfl rfl (fun k' cl hcl => ?_) fun _ => id
    by_cases hk : k' = .other k
    · subst hk
      obtain rfl : ⟨sd, .erase⟩ = cl := by simpa [State.closing] using hcl
      exact .inr rfl
    · refine .inl ?_
      cases k' with
      | main => exact hcl
      | worker i => exact hcl
      | other j =>
        have hj : j ≠ k := fun hj => hk (hj ▸ rfl)
        simpa only [State.closing, Function.update_of_ne hj] using hcl
  · next k cl hcl s₁ rest hclose =>
    obtain rfl : (s.closeStep cl).1 = s₁ := by rw [hclose]
    obtain rfl : (s.closeStep cl).2 = rest := by rw [hclose]
    have hcall : s.closeCall (.othersStep k) = some (.other k, cl) := by
      simp [State.closeCall, Action.closer, State.closing, hcl]
    obtain ⟨connect, owner, reg, hframe⟩ := closeStep_frame s cl
    refine .call hcall rfl rfl (closeStep_sd s cl) ?_ ?_ ?_ ?_
    · simp only [hframe]
    · simp only [State.closing, Function.update_self]
    · intro k' hk
      cases k' with
      | main => simp only [State.closing, closeStep_main]
      | worker i => simp only [State.closing, closeStep_slot]
      | other j =>
        have hj : j ≠ k := fun hj => hk (hj ▸ rfl)
        simp only [State.closing, Function.update_of_ne hj, hframe]
    · intro c hc
      simpa only [closeStep_main] using hc
  · next fd send c hmap =>
    exact .quiet rfl rfl rfl (setSock_sd rfl) rfl (fun _ _ => .inl) fun _ => id
  · exact .quiet rfl rfl rfl rfl rfl (fun _ _ => .inl) fun _ => id

end Effect

-- ════════════════════════════════════════════════════════════════════════
-- The descriptors as a table
-- ════════════════════════════════════════════════════════════════════════

/-- The open descriptors and `m_connect`, with the history. -/
def table (p : State × Closes) : Table Closer Fd Endpoint where
  owner := p.1.owner
  entry fd := (p.1.connect fd).map .conn
  taken := p.2.taken
  closed := p.2.closed

/-- The table is accounted for, a connection has the number that stands in its socket, and the
number of one that is being accepted is known to nobody else. -/
structure Tallied (p : State × Closes) : Prop where
  accounted : (table p).Accounted
  number : ∀ fd c, p.1.owner fd = some (.conn c) → p.1.sd c = fd ∧ c < p.1.fresh ∧ 0 < fd
  conns : ∀ k fd e, p.2.taken k = some (fd, e) → ∃ c, e = .conn c
  closed : ∀ x ∈ p.2.closed, ∃ c, x.2 = some (.conn c) ∧ c < p.1.fresh
  joining : ∀ c, p.1.main.unlisted = some c → p.1.owner (p.1.sd c) = some (.conn c) ∧
    p.1.connect (p.1.sd c) = none ∧ ∀ k e, p.2.taken k ≠ some (p.1.sd c, e)
  closing : ∀ k cl, p.1.closing k = some cl → cl.phase ≠ .erase →
    ∃ e, p.2.taken k = some (cl.sd, e)

section Tallied

variable {cfg : Config} {s s' : State} {h : Closes} {a : Action}

theorem Tallied.quiet (ht : Tallied (s, h)) (howner : s'.owner = s.owner)
    (hconnect : s'.connect = s.connect) (hsd : s'.sd = s.sd) (hfresh : s'.fresh = s.fresh)
    (hclosing : ∀ k cl, s'.closing k = some cl → cl.phase ≠ .erase →
      ∃ cl', s.closing k = some cl' ∧ cl'.sd = cl.sd ∧ cl'.phase ≠ .erase)
    (hunlisted : ∀ c, s'.main.unlisted = some c → s.main.unlisted = some c) :
    Tallied (s', h) := by
  have htable : table (s', h) = table (s, h) := by simp only [table, howner, hconnect]
  refine ⟨htable ▸ ht.accounted, ?_, ht.conns, ?_, ?_, ?_⟩
  · simpa only [howner, hsd, hfresh] using ht.number
  · simpa only [hfresh] using ht.closed
  · intro c hc
    simpa only [howner, hconnect, hsd] using ht.joining c (hunlisted c hc)
  · intro k cl hcl hphase
    obtain ⟨cl', hcl', hnum, hphase'⟩ := hclosing k cl hcl hphase
    exact hnum ▸ ht.closing k cl' hcl' hphase'

theorem Tallied.accept (ht : Tallied (s, h)) {fd : Fd} (hpos : 0 < fd) (hfree : s.owner fd = none)
    (howner : s'.owner = Function.update s.owner fd (some (.conn s.fresh)))
    (hconnect : s'.connect = s.connect) (hsd : s'.sd = Function.update s.sd s.fresh fd)
    (hfresh : s'.fresh = s.fresh + 1)
    (hclosing : ∀ k cl, s'.closing k = some cl → s.closing k = some cl)
    (hunlisted : s'.main.unlisted = some s.fresh) : Tallied (s', h) := by
  have hnew : ∀ fd', s.owner fd' ≠ some (.conn s.fresh) := fun fd' ho =>
    absurd (ht.number fd' _ ho).2.1 (Nat.lt_irrefl _)
  have hnever : ∀ x ∈ h.closed, x.2 ≠ some (.conn s.fresh) := by
    intro x hx heq
    obtain ⟨c, hc, hlt⟩ := ht.closed x hx
    obtain rfl : c = s.fresh := by simpa [hc] using heq
    exact absurd hlt (Nat.lt_irrefl _)
  have htable : table (s', h) =
      { table (s, h) with owner := Function.update s.owner fd (some (.conn s.fresh)) } := by
    simp only [table, howner, hconnect]
  refine ⟨htable ▸ ht.accounted.step (.new hfree hnew hnever), ?_, ht.conns, ?_, ?_, ?_⟩
  · intro fd' c hc
    simp only [howner] at hc
    simp only [hsd, hfresh]
    obtain ⟨rfl, heq⟩ | ⟨-, hold⟩ := update_some_eq_some.mp hc
    · obtain rfl : s.fresh = c := by simpa using heq
      exact ⟨Function.update_self .., Nat.lt_succ_self _, hpos⟩
    · obtain ⟨hnum, hlt, hpos'⟩ := ht.number fd' c hold
      exact ⟨(Function.update_of_ne (Nat.ne_of_lt hlt) ..).trans hnum, Nat.lt_succ_of_lt hlt, hpos'⟩
  · intro x hx
    obtain ⟨c, hc, hlt⟩ := ht.closed x hx
    exact ⟨c, hc, by simpa only [hfresh] using Nat.lt_succ_of_lt hlt⟩
  · intro c hc
    obtain rfl : s.fresh = c := Option.some.inj (hunlisted.symm.trans hc)
    have hnum : s'.sd s.fresh = fd := by rw [hsd, Function.update_self]
    refine ⟨?_, ?_, ?_⟩
    · simp only [hnum, howner, Function.update_self]
    · simp only [hnum, hconnect]
      by_contra hne
      obtain ⟨c, hc⟩ := Option.ne_none_iff_exists'.mp hne
      have hown := ht.accounted.entry fd (.conn c) (by simp [table, hc])
      exact absurd (hown.symm.trans hfree) (by simp)
    · intro k e htaken
      have hown := (ht.accounted.taken k fd e (hnum ▸ htaken)).1
      exact absurd (hown.symm.trans hfree) (by simp)
  · intro k cl hcl
    exact ht.closing k cl (hclosing k cl hcl)

theorem Tallied.add (ht : Tallied (s, h)) {c : Conn} (hmain : s.main.unlisted = some c)
    (howner : s'.owner = s.owner)
    (hconnect : s'.connect = Function.update s.connect (s.sd c) (some c)) (hsd : s'.sd = s.sd)
    (hfresh : s'.fresh = s.fresh)
    (hclosing : ∀ k cl, s'.closing k = some cl → s.closing k = some cl)
    (hunlisted : s'.main.unlisted = none) : Tallied (s', h) := by
  obtain ⟨hown, -, hnobody⟩ := ht.joining c hmain
  have htable : table (s', h) = { table (s, h) with
      entry := Function.update (table (s, h)).entry (s.sd c) (some (.conn c)) } := by
    simp only [table, howner, hconnect, Table.mk.injEq, true_and, and_true]
    funext fd
    by_cases hfd : fd = s.sd c
    · simp [hfd]
    · simp [hfd]
  refine ⟨htable ▸ ht.accounted.step (.register hown hnobody), ?_, ht.conns, ?_, ?_, ?_⟩
  · simpa only [howner, hsd, hfresh] using ht.number
  · simpa only [hfresh] using ht.closed
  · intro c' hc'
    rw [hunlisted] at hc'
    cases hc'
  · intro k cl hcl
    exact ht.closing k cl (hclosing k cl hcl)

/-- A call of `closesocket()` takes its entry out of `m_connect`. -/
theorem Tallied.take (ht : Tallied (s, h)) {k : Closer} {sd : Fd} {c : Conn}
    (hentry : s.connect sd = some c) (howner : s'.owner = s.owner)
    (hconnect : s'.connect = Function.update s.connect sd none) (hsd : s'.sd = s.sd)
    (hfresh : s'.fresh = s.fresh) (hself : ∀ cl, s'.closing k = some cl → cl.sd = sd)
    (hothers : ∀ k', k' ≠ k → s'.closing k' = s.closing k')
    (hunlisted : ∀ c, s'.main.unlisted = some c → s.main.unlisted = some c) :
    Tallied (s', { h with taken := Function.update h.taken k (some (sd, .conn c)) }) := by
  have hentry' : (table (s, h)).entry sd = some (.conn c) := by simp [table, hentry]
  have htable : table (s', { h with taken := Function.update h.taken k (some (sd, .conn c)) }) =
      { table (s, h) with
        entry := Function.update (table (s, h)).entry sd none
        taken := Function.update (table (s, h)).taken k (some (sd, .conn c)) } := by
    simp only [table, howner, hconnect, Table.mk.injEq, true_and, and_true]
    funext fd
    by_cases hfd : fd = sd
    · simp [hfd]
    · simp [hfd]
  refine ⟨htable ▸ ht.accounted.step (.take hentry'), ?_, ?_, ?_, ?_, ?_⟩
  · simpa only [howner, hsd, hfresh] using ht.number
  · intro k' fd e htaken
    obtain ⟨-, heq⟩ | ⟨-, hold⟩ := update_some_eq_some.mp htaken
    · obtain ⟨-, rfl⟩ := Prod.mk.inj heq
      exact ⟨c, rfl⟩
    · exact ht.conns k' fd e hold
  · simpa only [hfresh] using ht.closed
  · intro c' hc'
    obtain ⟨hown, hnone, hnobody⟩ := ht.joining c' (hunlisted c' hc')
    have hne : s.sd c' ≠ sd := by
      intro heq
      rw [heq, hentry] at hnone
      cases hnone
    simp only [howner, hconnect, hsd, Function.update_of_ne hne]
    refine ⟨hown, hnone, fun k' e htaken => ?_⟩
    obtain ⟨-, heq⟩ | ⟨-, hold⟩ := update_some_eq_some.mp htaken
    · exact hne (Prod.mk.inj heq).1.symm
    · exact hnobody k' e hold
  · intro k' cl hcl hphase
    by_cases hk : k' = k
    · subst hk
      exact ⟨.conn c, by rw [hself cl hcl]; exact Function.update_self ..⟩
    · obtain ⟨e, htaken⟩ := ht.closing k' cl (hothers k' hk ▸ hcl) hphase
      exact ⟨e, update_some_eq_some.mpr (.inr ⟨hk, htaken⟩)⟩

/-- A call of `closesocket()` closes its number. -/
theorem Tallied.close (ht : Tallied (s, h)) {k : Closer} {sd : Fd} {e : Endpoint}
    (htaken : h.taken k = some (sd, e)) (howner : s'.owner = Function.update s.owner sd none)
    (hconnect : s'.connect = s.connect) (hsd : s'.sd = s.sd) (hfresh : s'.fresh = s.fresh)
    (hself : s'.closing k = none) (hothers : ∀ k', k' ≠ k → s'.closing k' = s.closing k')
    (hunlisted : ∀ c, s'.main.unlisted = some c → s.main.unlisted = some c) :
    Tallied (s', { taken := Function.update h.taken k none
                   closed := h.closed ++ [(some e, s.owner sd)] }) := by
  have htable : table (s', { taken := Function.update h.taken k none
                             closed := h.closed ++ [(some e, s.owner sd)] }) =
      { table (s, h) with
        owner := Function.update s.owner sd none
        taken := Function.update h.taken k none
        closed := h.closed ++ [(some e, s.owner sd)] } := by
    simp only [table, howner, hconnect]
  have hown : s.owner sd = some e := (ht.accounted.taken k sd e htaken).1
  refine ⟨htable ▸ ht.accounted.step (.close htaken), ?_, ?_, ?_, ?_, ?_⟩
  · intro fd c hc
    simp only [hsd, hfresh]
    refine ht.number fd c ?_
    rw [howner] at hc
    exact (update_none_eq_some.mp hc).2
  · intro k' fd e' htaken'
    exact ht.conns k' fd e' (update_none_eq_some.mp htaken').2
  · intro x hx
    simp only [hfresh]
    obtain hx | hx := List.mem_append.mp hx
    · exact ht.closed x hx
    · obtain rfl := List.mem_singleton.mp hx
      obtain ⟨c, rfl⟩ := ht.conns k sd e htaken
      exact ⟨c, hown, (ht.number sd c hown).2.1⟩
  · intro c hc
    obtain ⟨hown', hnone, hnobody⟩ := ht.joining c (hunlisted c hc)
    have hne : s.sd c ≠ sd := fun heq => hnobody k e (heq ▸ htaken)
    simp only [howner, hconnect, hsd, Function.update_of_ne hne]
    refine ⟨hown', hnone, fun k' e' htaken' => ?_⟩
    exact hnobody k' e' (update_none_eq_some.mp htaken').2
  · intro k' cl hcl hphase
    have hk : k' ≠ k := by
      rintro rfl
      rw [hself] at hcl
      cases hcl
    obtain ⟨e', htaken'⟩ := ht.closing k' cl (hothers k' hk ▸ hcl) hphase
    exact ⟨e', update_none_eq_some.mpr ⟨hk, htaken'⟩⟩

/-- A party that has not come to its lookup gives up what it has taken out. -/
theorem Tallied.leave (ht : Tallied (s, h)) {k : Closer}
    (hk : ∀ cl, s.closing k = some cl → cl.phase = .erase) :
    Tallied (s, { h with taken := Function.update h.taken k none }) := by
  refine ⟨ht.accounted.step (.leave k), ht.number, ?_, ht.closed, ?_, ?_⟩
  · intro k' fd e htaken
    exact ht.conns k' fd e (update_none_eq_some.mp htaken).2
  · intro c hc
    obtain ⟨hown, hnone, hnobody⟩ := ht.joining c hc
    exact ⟨hown, hnone, fun k' e htaken => hnobody k' e (update_none_eq_some.mp htaken).2⟩
  · intro k' cl hcl hphase
    have hne : k' ≠ k := fun heq => hphase (hk cl (heq ▸ hcl))
    obtain ⟨e, htaken⟩ := ht.closing k' cl hcl hphase
    exact ⟨e, update_none_eq_some.mpr ⟨hne, htaken⟩⟩

/-- A step of `closesocket()`. -/
theorem Tallied.call (ht : Tallied (s, h)) {k : Closer} {cl : Closing}
    (hok : findsEntry (s, h) a = true) (hcall : s.closeCall a = some (k, cl))
    (hcl : s.closing k = some cl) (howner : s'.owner = (s.closeStep cl).1.owner)
    (hconnect : s'.connect = (s.closeStep cl).1.connect) (hsd : s'.sd = s.sd)
    (hfresh : s'.fresh = s.fresh) (hself : s'.closing k = (s.closeStep cl).2)
    (hothers : ∀ k', k' ≠ k → s'.closing k' = s.closing k')
    (hunlisted : ∀ c, s'.main.unlisted = some c → s.main.unlisted = some c) :
    Tallied (s', h.next s a) := by
  obtain ⟨sd, phase⟩ := cl
  cases phase with
  | erase =>
    have hnext : h.next s a = { h with
        taken := Function.update h.taken k ((s.connect sd).map fun c => (sd, .conn c)) } := by
      simp only [Closes.next, hcall]
    rw [hnext]
    cases hentry : s.connect sd with
    | some c =>
      refine ht.take hentry howner hconnect hsd hfresh (fun cl hcl' => ?_) hothers hunlisted
      rw [hself, State.closeStep] at hcl'
      by_cases hpos : 0 < sd
      · simp only [if_pos hpos, Option.some.injEq] at hcl'
        exact hcl' ▸ rfl
      · simp [hpos] at hcl'
    | none =>
      -- only a call for the number 0 finds no entry, and it ends here
      have hzero : sd = 0 := by simpa [findsEntry, hcall, hentry] using hok
      have hsame : s'.connect = s.connect := by
        rw [hconnect, State.closeStep]
        exact Function.update_eq_self_iff.mpr hentry.symm
      refine (ht.leave (k := k) fun cl hcl' => ?_).quiet howner hsame hsd hfresh ?_ hunlisted
      · rw [hcl] at hcl'
        exact Option.some.inj hcl' ▸ rfl
      · intro k' cl hcl' hphase
        by_cases hk : k' = k
        · subst hk
          simp [hself, State.closeStep, hzero] at hcl'
        · exact ⟨cl, hothers k' hk ▸ hcl', rfl, hphase⟩
  | del =>
    have hnext : h.next s a = h := by simp only [Closes.next, hcall]
    rw [hnext]
    refine ht.quiet howner hconnect hsd hfresh (fun k' cl hcl' hphase => ?_) hunlisted
    by_cases hk : k' = k
    · subst hk
      refine ⟨_, hcl, ?_, by simp⟩
      simp only [hself, State.closeStep, Option.some.injEq] at hcl'
      rw [← hcl']
    · exact ⟨cl, hothers k' hk ▸ hcl', rfl, hphase⟩
  | close =>
    obtain ⟨e, htaken⟩ : ∃ e, h.taken k = some (sd, e) := ht.closing k _ hcl (by simp)
    have hnext : h.next s a = { taken := Function.update h.taken k none
                                closed := h.closed ++ [(some e, s.owner sd)] } := by
      simp only [Closes.next, hcall, htaken, Option.map_some]
    rw [hnext]
    exact ht.close htaken howner hconnect hsd hfresh hself hothers hunlisted

theorem closing_of_closeCall {k : Closer} {cl : Closing} (hcall : s.closeCall a = some (k, cl)) :
    s.closing k = some cl := by
  obtain ⟨k', -, hk'⟩ := Option.bind_eq_some_iff.mp hcall
  obtain ⟨cl', hcl', heq⟩ := Option.map_eq_some_iff.mp hk'
  obtain ⟨rfl, rfl⟩ : k' = k ∧ cl' = cl := by simpa using heq
  exact hcl'

theorem Tallied.step (ht : Tallied (s, h)) (hok : findsEntry (s, h) a = true)
    (hstep : Pool.step cfg s a = some s') : Tallied (s', h.next s a) := by
  have hsame : s.closeCall a = none → h.next s a = h := fun hcall => by
    simp only [Closes.next, hcall]
  cases step_effect hstep with
  | quiet hcall howner hconnect hsd hfresh hclosing hunlisted =>
    rw [hsame hcall]
    refine ht.quiet howner hconnect hsd hfresh (fun k cl hcl hphase => ?_) hunlisted
    exact ⟨cl, (hclosing k cl hcl).resolve_right hphase, rfl, hphase⟩
  | accept hcall hpos hfree howner hconnect hsd hfresh hclosing hunlisted =>
    rw [hsame hcall]
    exact ht.accept hpos hfree howner hconnect hsd hfresh hclosing hunlisted
  | add hcall hmain howner hconnect hsd hfresh hclosing hunlisted =>
    rw [hsame hcall]
    exact ht.add hmain howner hconnect hsd hfresh hclosing hunlisted
  | call hcall howner hconnect hsd hfresh hself hothers hunlisted =>
    exact ht.call hok hcall (closing_of_closeCall hcall) howner hconnect hsd hfresh hself hothers
      hunlisted

theorem Tallied.init (cfg : Config) : Tallied (.init cfg, {}) := by
  have hmain : (State.init cfg).main = .loop := by
    rw [State.init]
    split <;> rfl
  have hclosing : ∀ k, (State.init cfg).closing k = none := by
    intro k
    cases k with
    | main => exact closing_main (by simp [hmain])
    | worker i =>
      have hslot : (State.init cfg).slot i = {} := by
        rw [State.init]
        split <;> rfl
      exact closing_worker (by simp [hslot])
    | other k =>
      rw [State.init]
      split <;> rfl
  have hunlisted : (State.init cfg).main.unlisted = none := by
    rw [hmain]
    rfl
  refine ⟨?_, ?_, by simp, by simp, by simp [hunlisted], by simp [hclosing]⟩
  · by_cases hl : cfg.listening = true
    · constructor <;> simp [table, State.init, hl, Function.update_apply]
    · constructor <;> simp +contextual [table, State.init, hl, Function.update_apply]
  · intro fd c
    by_cases hl : cfg.listening = true
    · simp [State.init, hl, Function.update_apply]
    · by_cases hfd : fd = cfg.sockmain
      · simp +contextual [State.init, hl, State.sd, hfd, eq_comm, cfg.sockmain_pos]
      · simp [State.init, hl, hfd]

theorem Tallied.closedOnce {p : State × Closes} (ht : Tallied p) : ClosedOnce p where
  own x hx := by
    obtain ⟨c, hc, -⟩ := ht.closed x hx
    obtain ⟨e, rfl, -⟩ := ht.accounted.closed x hx
    obtain rfl : e = .conn c := by simpa using hc
    exact ⟨c, rfl⟩
  once := ht.accounted.once
  key fd c hc := by
    have hown : p.1.owner fd = some (.conn c) :=
      ht.accounted.entry fd (.conn c) (by simp [table, hc])
    exact ⟨hown, (ht.number fd c hown).1⟩

end Tallied

/-- In every run in which `closesocket()` finds an entry whenever it is called, it closes only
descriptors of the connections that it has taken out, none of them twice, and `m_connect` lists
open descriptors of its connections. -/
theorem closed_once (cfg : Config) (as : List Action) (p : State × Closes)
    (h : Exec (recordedStep cfg) (fun p a => findsEntry p a = true) (.init cfg, {}) as p) :
    ClosedOnce p := by
  have hinv : Tallied p := by
    apply h.invariant
    · rintro ⟨s, hist⟩ a p' hok ht hstep
      obtain ⟨s', hs', rfl⟩ := Option.map_eq_some_iff.mp hstep
      exact ht.step hok hs'
    · exact .init cfg
  exact hinv.closedOnce

/-- A worker's user function answers `tst_disconnect` for the connection 0, and the worker comes
to `closesocket()`. -/
def disconnectRun : List Action :=
  acceptRun 5 .suspend ++ assignRun 5 { epollin := true } ++ jobRun 0 .disconnect ++
    [.worker 0 .go, .worker 0 .go]

/-- The worker and another thread close one connection each. -/
theorem closed_once_two : ∃ p, ClosedOnce p ∧
    p.2.closed = [(some (.conn 0), some (.conn 0)), (some (.conn 1), some (.conn 1))] := by
  have hrun : ((check (recordedStep .server) (fun p a => findsEntry p a = true) (.init .server, {})
      (disconnectRun ++ [.worker 0 .go, .worker 0 .go, .worker 0 .go] ++ acceptRun 5 .suspend ++
        [.othersClose 0 5, .othersStep 0, .othersStep 0, .othersStep 0])).any fun p =>
      p.2.closed = [(some (.conn 0), some (.conn 0)), (some (.conn 1), some (.conn 1))]) = true := by
    decide +kernel
  obtain ⟨p, hexec, hp⟩ := Exec.exists_of_check hrun
  exact ⟨p, closed_once .server _ p hexec, of_decide_eq_true hp⟩

/-- Another thread calls `closesocket()` for the connection that the worker is about to close. The
worker finds no entry any more, and closes the connection that has been given the number since. -/
theorem closes_other_connection : ∃ p,
    Exec (recordedStep .server) (fun _ _ => True) (.init .server, {})
      (disconnectRun ++ [.othersClose 0 5, .othersStep 0, .worker 0 .go, .othersStep 0,
        .othersStep 0] ++ acceptRun 5 .suspend ++ [.worker 0 .go, .worker 0 .go]) p ∧
      p.2.closed = [(some (.conn 0), some (.conn 0)), (none, some (.conn 1))] ∧
      p.1.connect 5 = some 1 ∧ p.1.owner 5 = none := by
  have hrun : ((check (recordedStep .server) (fun _ _ => True) (.init .server, {})
      (disconnectRun ++ [.othersClose 0 5, .othersStep 0, .worker 0 .go, .othersStep 0,
        .othersStep 0] ++ acceptRun 5 .suspend ++ [.worker 0 .go, .worker 0 .go])).any fun p =>
      p.2.closed = [(some (.conn 0), some (.conn 0)), (none, some (.conn 1))] ∧
        p.1.connect 5 = some 1 ∧ p.1.owner 5 = none) = true := by
    decide +kernel
  obtain ⟨p, hexec, hp⟩ := Exec.exists_of_check hrun
  exact ⟨p, hexec, of_decide_eq_true hp⟩

end Tst.Pool
