import Tst.Pool.State

/-!
# Steps of the thread pool

What each thread does at each of its points, and the actions of the others: the kernel
fetching events, another thread of the program calling `need_send` or `closesocket`,
and `destroy` stopping the main loop.

## Main definitions

- `mainStep` — one step of `tst_main`
- `Slot.step`, `workerStep` — one step of `tst_work`
- `step` — one step of the pool

## Main results

- `MainStep`, `Slot.Step` — the steps of the two threads as tables, one row per point
- `mainStep_cases`, `Slot.step_cases`, `workerStep_cases` — every step is in the table
-/

namespace Tst.Pool

/-- The outcomes that a step of `tst_main` takes from outside. -/
inductive MainInput
  | go
  | epollWait (evs : List (Fd × Events))
  | accept (result : Option Fd)
  | fmain (next : TstStat)
  | ioctl (failed : Bool) (checkLen : UInt32)
  | fconnected (next : TstStat) (recv send : Option TstData)
  | ctl (ok : Bool)
  deriving DecidableEq, Repr

/-- The outcomes that a step of `tst_work` takes from outside. -/
inductive WorkerInput
  | go
  | waited (r : Waited)
  | kernel (k : Kernel)
  | returned (next : TstStat) (recv send : Option TstData)
  | idle (next : TstStat)
  | ctl (ok : Bool)

inductive Action
  | main (inp : MainInput)
  | worker (i : Nat) (inp : WorkerInput)
  /-- `need_send(sd)`, whose `epoll_ctl` may fail -/
  | needSend (sd : Fd) (ok : Bool)
  /-- the start of a call `closesocket(sd)` by the party `k` -/
  | othersClose (k : Nat) (sd : Fd)
  | othersStep (k : Nat)
  /-- another thread fills the send buffer of a socket that it finds in `m_connect` -/
  | prepare (fd : Fd) (send : TstData)
  /-- `m_main_run = 0` in `destroy` -/
  | stop

/-- The mask of a client socket that is registered with `next`. -/
def clientMask (next : TstStat) : Events :=
  if next = .send then .baseOut else .base

-- ════════════════════════════════════════════════════════════════════════
-- The kernel
-- ════════════════════════════════════════════════════════════════════════

/-- The bits that `epoll_wait` may report for a mask: some of the mask's own, and
`EPOLLERR` and `EPOLLHUP` always. -/
def Registration.offers (r : Registration) (e : Events) : Bool :=
  e ≠ {} && (!e.epollin || r.mask.epollin) && (!e.epollpri || r.mask.epollpri) &&
    (!e.epollout || r.mask.epollout) && (!e.epollrdhup || r.mask.epollrdhup)

namespace State

/-- `epoll_ctl(EPOLL_CTL_ADD)`. -/
def ctlAdd (s : State) (fd : Fd) (mask : Events) (ok : Bool) : State :=
  { s with
    reg := if ok ∧ (s.owner fd).isSome ∧ s.reg fd = none then
      Function.update s.reg fd (some ⟨mask, true⟩) else s.reg }

/-- `epoll_ctl(EPOLL_CTL_MOD)`. -/
def ctlMod (s : State) (fd : Fd) (mask : Events) (ok : Bool) : State :=
  { s with
    reg := if ok ∧ (s.reg fd).isSome then
      Function.update s.reg fd (some ⟨mask, true⟩) else s.reg }

/-- One event of a batch. It disarms its registration. -/
def deliverOne (cfg : Config) (s : State) (ev : Fd × Events) : Option State :=
  match s.reg ev.1, s.owner ev.1 with
  | some r, some src =>
    if r.armed ∧ r.offers ev.2 ∧ s.batch.length < cfg.threadCount then
      some { s.setReg ev.1 (some { r with armed := false }) with
        batch := ⟨ev.1, ev.2, src⟩ :: s.batch }
    else none
  | _, _ => none

/-- `epoll_wait`. The program handles the events from the last one backwards. -/
def deliver (cfg : Config) (s : State) (evs : List (Fd × Events)) : Option State :=
  evs.foldlM (deliverOne cfg) s

/-- One step of `closesocket`: the state after it, and what is left of the call. Closing
a descriptor ends its registration. -/
def closeStep (s : State) (cl : Closing) : State × Option Closing :=
  match cl.phase with
  | .erase =>
    (s.setConnect cl.sd none, if 0 < cl.sd then some { cl with phase := .del } else none)
  | .del => (s.setReg cl.sd none, some { cl with phase := .close })
  | .close => ((s.setOwner cl.sd none).setReg cl.sd none, none)

-- ════════════════════════════════════════════════════════════════════════
-- The main thread
-- ════════════════════════════════════════════════════════════════════════

/-- Go on with the next event of the batch. -/
def takeEvent (s : State) : State :=
  match s.batch with
  | [] => s
  | e :: rest => { s with main := .event e, batch := rest }

/-- `accept`, with the new `TST_SOCKET`. An error leaves the main socket as it is. -/
def accept (cfg : Config) (s : State) : Option Fd → Option State
  | some fd =>
    if 0 < fd then
      if s.owner fd = none ∧ s.owner cfg.sockmain = some .listen then
        some { (s.setOwner fd (some (.conn s.fresh))).setSock s.fresh
            (({ sd := fd } : TstSocket).initBuffer cfg.recvBufSize cfg.sendBufSize) with
          fresh := s.fresh + 1
          main := .accepted s.fresh }
      else none
    else some { s with main := .loop }
  | none => some { s with main := .loop }

/-- Where `tst_main` goes on when a call of `closesocket` has returned. -/
def afterClose (cfg : Config) (s : State) : AfterClose → State
  | .add c => { s with main := .add c }
  | .refused _ => { s with main := .rearmListen }
  | .event e =>
    if e.fd = cfg.sockmain then { s with mainRun := false, main := .stopWork }
    else { s with main := .loop }

end State

/-- An event of the listening socket, of a main socket that the user connected, or of a
client. -/
def eventStep (cfg : Config) (s : State) (e : Event) (inp : MainInput) : Option State :=
  if e.fd = cfg.sockmain ∧ cfg.listening then
    match inp with
    | .accept result => if e.events.epollin then s.accept cfg result else none
    | .go =>
      if e.events.epollin then none
      else some { s with mainRun := s.mainRun && !e.events.hangup, main := .loop }
    | _ => none
  else
    match inp with
    | .fmain next =>
      if e.fd = cfg.sockmain then
        if next = .reconnected then some { s with main := .loop, batch := e :: s.batch }
        else some { s with main := .client e }
      else none
    | .go => some { s with main := .client e }
    | _ => none

/-- One step of `tst_main`. -/
def mainStep (cfg : Config) (s : State) (inp : MainInput) : Option State :=
  match s.main, inp with
  | .loop, .go =>
    if s.mainRun then if s.batch = [] then none else some s.takeEvent
    else some { s with main := .stopWork }
  | .loop, .epollWait evs =>
    if s.mainRun ∧ s.batch = [] then (s.deliver cfg evs).map State.takeEvent else none
  | .event e, inp => eventStep cfg s e inp
  | .accepted c, .go =>
    -- a descriptor that the map still lists is taken for a remnant
    if (s.connect (s.sd c)).isSome then some { s with main := .closing ⟨s.sd c, .erase⟩ (.add c) }
    else some { s with main := .add c }
  | .add c, .go =>
    some { (s.setSock c ((s.sock c).addBuffers cfg.recvBufSize cfg.sendBufSize)).setConnect
        (s.sd c) (some c) with main := .fconnected c }
  | .fconnected c, .fconnected next recv send =>
    some { s.setSock c { s.sock c with recv, send } with
      main := if next < .reconnected then .register c next
        else .closing ⟨s.sd c, .erase⟩ (.refused c) }
  | .register c next, .ctl ok =>
    some { s.ctlAdd (s.sd c) (clientMask next) ok with main := .rearmListen }
  | .rearmListen, .ctl ok => some { s.ctlMod cfg.sockmain .base ok with main := .loop }
  | .client e, .ioctl failed checkLen =>
    if (e.events.epollin ∧ checkLen = 0) ∨ failed ∨ e.events.hangup then
      some { s with main := .closing ⟨e.fd, .erase⟩ (.event e) }
    else some { s with main := .lookup e checkLen }
  | .lookup e checkLen, .go =>
    match s.connect e.fd with
    | none => some { s with main := .crashed }
    | some c => some { s with main := .scan ⟨e, c, checkLen⟩ 0 }
  | .scan d i, .go =>
    if i < cfg.threadCount then
      if (s.slot i).stat < .run then some { s with main := .setRun d i }
      else some { s with main := .scan d (i + 1) }
    else some { s with main := .loop, batch := d.ev :: s.batch }
  | .setRun d i, .go =>
    if (s.slot i).lock = none then
      some { s.setSlot i { s.slot i with stat := .run, lock := some .main } with
        main := .setSocket d i }
    else none
  | .setSocket d i, .go =>
    some { ((s.setSock d.conn ((s.sock d.conn).handEvents d.ev.events d.checkLen)).setSlot i
        { s.slot i with tstSocket := some d.conn, lock := none }).setHolds i d.conn true with
      main := .loop }
  | .closing cl after, .go =>
    match s.closeStep cl with
    | (s', some cl') => some { s' with main := .closing cl' after }
    | (s', none) => some (s'.afterClose cfg after)
  | .stopWork, .go => some { s with workRun := false, main := .exitScan 0 }
  | .exitScan i, .go =>
    if i < cfg.threadCount then
      if (s.slot i).lock = none then
        if (s.slot i).stat < .run then
          some { s.setSlot i { s.slot i with lock := some .main } with main := .exitStore i }
        else some { s with main := .exitScan (i + 1) }
      else none
    else some { s with main := .done }
  | .exitStore i, .go =>
    some { s.setSlot i { s.slot i with stat := .exit, lock := none } with
      main := .exitScan (i + 1) }
  | _, _ => none

-- ════════════════════════════════════════════════════════════════════════
-- The work threads
-- ════════════════════════════════════════════════════════════════════════

/-- The steps of `tst_work` that touch its own `TST_THREAD_INFO` only. -/
def Slot.step (workRun : Bool) (sl : Slot) (inp : WorkerInput) : Option Slot :=
  match sl.pc, inp with
  | .loop, .go => some { sl with pc := if workRun then .testWait else .exitStore }
  | .testWait, .go => some { sl with pc := if sl.stat < .exit then .waiting else .testRun }
  | .waiting, .waited r =>
    if sl.lock = none then some { sl with pc := if r = .failed then .errStore else .testRun }
    else none
  | .errStore, .go => some { sl with stat := .suspend, pc := .loop }
  | .testRun, .go => some { sl with pc := if sl.stat = .run then .takeSocket else .testSuspend }
  | .takeSocket, .go =>
    match sl.tstSocket with
    | some c => some { sl with pc := .job c }
    | none => some { sl with pc := .crashed }
  | .lockEnd c next, .go =>
    if sl.lock = none then some { sl with lock := some .worker, pc := .rearm c next } else none
  | .storeNext next, .go => some { sl with stat := next, pc := .clearSocket }
  | .clearSocket, .go => some { sl with tstSocket := none, lock := none, pc := .loop }
  | .testSuspend, .go => some { sl with pc := if sl.stat = .suspend then .idleMark else .testExit }
  | .idleMark, .go => some { sl with stat := .run, pc := .idleCall }
  | .idleCall, .idle next => some { sl with pc := .idleStore next }
  | .idleStore next, .go =>
    if sl.lock = none then some { sl with stat := next, pc := .loop } else none
  | .testExit, .go => some { sl with pc := if sl.stat = .exit then .exitMark else .otherStore }
  | .otherStore, .go =>
    if sl.lock = none then some { sl with stat := .suspend, pc := .loop } else none
  | .exitMark, .go => some { sl with stat := .exited, pc := .exitStore }
  | .exitStore, .go => some { sl with stat := .exited, pc := .exited }
  | _, _ => none

/-- The end of a job, under the mutex: `closesocket` for `tst_disconnect`, else the
socket is re-armed. `tst_send` asks for `EPOLLOUT` and is stored as `tst_suspend`. -/
def rearmStep (s : State) (i : Nat) (c : Conn) (next : TstStat) (inp : WorkerInput) :
    Option State :=
  let sl := s.slot i
  if 0 < s.sd c then
    match decide (next = .disconnect), inp with
    | true, .go =>
      some ((s.setHolds i c false).setSlot i { sl with pc := .closing ⟨s.sd c, .erase⟩ c })
    | false, .ctl ok =>
      some (((s.ctlMod (s.sd c) (clientMask next) ok).setHolds i c false).setSlot i
        { sl with pc := .storeNext (if next = .send then .suspend else next) })
    | _, _ => none
  else
    match inp with
    | .go => some (s.setSlot i
        { sl with pc := .storeNext (if next = .disconnect then .suspend else next) })
    | _ => none

/-- One step of the worker `i`. -/
def workerStep (s : State) (i : Nat) (inp : WorkerInput) : Option State :=
  let sl := s.slot i
  match sl.pc, inp with
  | .job c, .kernel k =>
    let r := (s.sock c).transfer k
    some ((s.setSock c r.sock).setSlot i
      { sl with pc := if r.next = .run then .call c else .lockEnd c r.next })
  | .call c, .returned next recv send =>
    some ((s.setSock c { s.sock c with recv, send }).setSlot i { sl with pc := .lockEnd c next })
  | .rearm c next, inp => rearmStep s i c next inp
  | .closing cl c, .go =>
    match s.closeStep cl with
    | (s', some cl') => some (s'.setSlot i { sl with pc := .closing cl' c })
    | (s', none) => some (s'.setSlot i { sl with pc := .storeNext .suspend })
  | _, inp => (sl.step s.workRun inp).map (s.setSlot i)

-- ════════════════════════════════════════════════════════════════════════
-- The pool
-- ════════════════════════════════════════════════════════════════════════

/-- One step of the pool. -/
def step (cfg : Config) (s : State) : Action → Option State
  | .main inp => mainStep cfg s inp
  | .worker i inp => if i < cfg.threadCount then workerStep s i inp else none
  | .needSend sd ok => some (if s.mainRun then s.ctlMod sd .baseOut ok else s)
  | .othersClose k sd =>
    if s.others k = none then
      some { s with others := Function.update s.others k (some ⟨sd, .erase⟩) }
    else none
  | .othersStep k =>
    match s.others k with
    | none => none
    | some cl =>
      let (s', rest) := s.closeStep cl
      some { s' with others := Function.update s'.others k rest }
  | .prepare fd send =>
    match s.connect fd with
    | none => none
    | some c => some (s.setSock c { s.sock c with send })
  | .stop => some { s with mainRun := false }

-- ════════════════════════════════════════════════════════════════════════
-- The tables of the steps
-- ════════════════════════════════════════════════════════════════════════

/-- The steps of `tst_main`. -/
inductive MainStep (cfg : Config) (s : State) : MainInput → State → Prop
  | loopStop (hpc : s.main = .loop) (hrun : s.mainRun = false) :
    MainStep cfg s .go { s with main := .stopWork }
  | loopEvent {e : Event} {rest : List Event} (hpc : s.main = .loop) (hrun : s.mainRun = true)
    (hbatch : s.batch = e :: rest) :
    MainStep cfg s .go { s with main := .event e, batch := rest }
  | epollWait {evs : List (Fd × Events)} {s₁ : State} (hpc : s.main = .loop)
    (hrun : s.mainRun = true) (hbatch : s.batch = []) (hdel : s.deliver cfg evs = some s₁) :
    MainStep cfg s (.epollWait evs) s₁.takeEvent
  | acceptError {e : Event} {r : Option Fd} (hpc : s.main = .event e)
    (hfd : e.fd = cfg.sockmain) (hlisten : cfg.listening = true) (hin : e.events.epollin = true)
    (hr : ∀ fd, r = some fd → fd = 0) :
    MainStep cfg s (.accept r) { s with main := .loop }
  | accept {e : Event} {fd : Fd} (hpc : s.main = .event e) (hfd : e.fd = cfg.sockmain)
    (hlisten : cfg.listening = true) (hpos : 0 < fd) (hfree : s.owner fd = none)
    (howner : s.owner cfg.sockmain = some .listen) :
    MainStep cfg s (.accept (some fd))
      { (s.setOwner fd (some (.conn s.fresh))).setSock s.fresh
          (({ sd := fd } : TstSocket).initBuffer cfg.recvBufSize cfg.sendBufSize) with
        fresh := s.fresh + 1
        main := .accepted s.fresh }
  | listenOther {e : Event} (hpc : s.main = .event e) (hfd : e.fd = cfg.sockmain)
    (hlisten : cfg.listening = true) (hin : e.events.epollin = false) :
    MainStep cfg s .go { s with mainRun := s.mainRun && !e.events.hangup, main := .loop }
  | reconnected {e : Event} (hpc : s.main = .event e) (hfd : e.fd = cfg.sockmain)
    (hlisten : cfg.listening = false) :
    MainStep cfg s (.fmain .reconnected) { s with main := .loop, batch := e :: s.batch }
  | toClient {e : Event} {inp : MainInput} (hpc : s.main = .event e)
    (hclient : ¬ (e.fd = cfg.sockmain ∧ cfg.listening = true)) :
    MainStep cfg s inp { s with main := .client e }
  | remnant {c : Conn} (hpc : s.main = .accepted c) (hmap : (s.connect (s.sd c)).isSome) :
    MainStep cfg s .go { s with main := .closing ⟨s.sd c, .erase⟩ (.add c) }
  | unlisted {c : Conn} (hpc : s.main = .accepted c) (hmap : s.connect (s.sd c) = none) :
    MainStep cfg s .go { s with main := .add c }
  | add {c : Conn} (hpc : s.main = .add c) :
    MainStep cfg s .go
      { (s.setSock c ((s.sock c).addBuffers cfg.recvBufSize cfg.sendBufSize)).setConnect
          (s.sd c) (some c) with main := .fconnected c }
  | fconnected {c : Conn} {next : TstStat} {recv send : Option TstData}
    (hpc : s.main = .fconnected c) (hnext : next < .reconnected) :
    MainStep cfg s (.fconnected next recv send)
      { s.setSock c { s.sock c with recv, send } with main := .register c next }
  | refuse {c : Conn} {next : TstStat} {recv send : Option TstData}
    (hpc : s.main = .fconnected c) (hnext : ¬ next < .reconnected) :
    MainStep cfg s (.fconnected next recv send)
      { s.setSock c { s.sock c with recv, send } with
        main := .closing ⟨s.sd c, .erase⟩ (.refused c) }
  | register {c : Conn} {next : TstStat} {ok : Bool} (hpc : s.main = .register c next) :
    MainStep cfg s (.ctl ok)
      { s.ctlAdd (s.sd c) (clientMask next) ok with main := .rearmListen }
  | rearmListen {ok : Bool} (hpc : s.main = .rearmListen) :
    MainStep cfg s (.ctl ok) { s.ctlMod cfg.sockmain .base ok with main := .loop }
  | clientClose {e : Event} {failed : Bool} {checkLen : UInt32} (hpc : s.main = .client e) :
    MainStep cfg s (.ioctl failed checkLen) { s with main := .closing ⟨e.fd, .erase⟩ (.event e) }
  | clientKeep {e : Event} {failed : Bool} {checkLen : UInt32} (hpc : s.main = .client e) :
    MainStep cfg s (.ioctl failed checkLen) { s with main := .lookup e checkLen }
  | lookupNull {e : Event} {checkLen : UInt32} (hpc : s.main = .lookup e checkLen)
    (hmap : s.connect e.fd = none) :
    MainStep cfg s .go { s with main := .crashed }
  | lookup {e : Event} {checkLen : UInt32} {c : Conn} (hpc : s.main = .lookup e checkLen)
    (hmap : s.connect e.fd = some c) :
    MainStep cfg s .go { s with main := .scan ⟨e, c, checkLen⟩ 0 }
  | scanFree {d : Dispatch} {i : Nat} (hpc : s.main = .scan d i) (hi : i < cfg.threadCount)
    (hstat : (s.slot i).stat = .suspend) :
    MainStep cfg s .go { s with main := .setRun d i }
  | scanBusy {d : Dispatch} {i : Nat} (hpc : s.main = .scan d i) :
    MainStep cfg s .go { s with main := .scan d (i + 1) }
  | scanEnd {d : Dispatch} {i : Nat} (hpc : s.main = .scan d i) :
    MainStep cfg s .go { s with main := .loop, batch := d.ev :: s.batch }
  | setRun {d : Dispatch} {i : Nat} (hpc : s.main = .setRun d i)
    (hlock : (s.slot i).lock = none) :
    MainStep cfg s .go
      { s.setSlot i { s.slot i with stat := .run, lock := some .main } with
        main := .setSocket d i }
  | setSocket {d : Dispatch} {i : Nat} (hpc : s.main = .setSocket d i) :
    MainStep cfg s .go
      { ((s.setSock d.conn ((s.sock d.conn).handEvents d.ev.events d.checkLen)).setSlot i
          { s.slot i with tstSocket := some d.conn, lock := none }).setHolds i d.conn true with
        main := .loop }
  | closing {cl cl' : Closing} {after : AfterClose} {s₁ : State}
    (hpc : s.main = .closing cl after) (hclose : s.closeStep cl = (s₁, some cl')) :
    MainStep cfg s .go { s₁ with main := .closing cl' after }
  | closed {cl : Closing} {after : AfterClose} {s₁ : State}
    (hpc : s.main = .closing cl after) (hclose : s.closeStep cl = (s₁, none)) :
    MainStep cfg s .go (s₁.afterClose cfg after)
  | stopWork (hpc : s.main = .stopWork) :
    MainStep cfg s .go { s with workRun := false, main := .exitScan 0 }
  | exitScanFree {i : Nat} (hpc : s.main = .exitScan i) (hlock : (s.slot i).lock = none)
    (hstat : (s.slot i).stat = .suspend) :
    MainStep cfg s .go
      { s.setSlot i { s.slot i with lock := some .main } with main := .exitStore i }
  | exitScanBusy {i : Nat} (hpc : s.main = .exitScan i) :
    MainStep cfg s .go { s with main := .exitScan (i + 1) }
  | exitScanEnd {i : Nat} (hpc : s.main = .exitScan i) :
    MainStep cfg s .go { s with main := .done }
  | exitStore {i : Nat} (hpc : s.main = .exitStore i) :
    MainStep cfg s .go
      { s.setSlot i { s.slot i with stat := .exit, lock := none } with
        main := .exitScan (i + 1) }

/-- The steps of `tst_work` that touch its own `TST_THREAD_INFO` only. -/
inductive Slot.Step (workRun : Bool) (sl : Slot) : WorkerInput → Slot → Prop
  | loop (hpc : sl.pc = .loop) :
    Slot.Step workRun sl .go { sl with pc := if workRun then .testWait else .exitStore }
  | testWait (hpc : sl.pc = .testWait) :
    Slot.Step workRun sl .go { sl with pc := if sl.stat < .exit then .waiting else .testRun }
  | waiting {r : Waited} (hpc : sl.pc = .waiting) (hlock : sl.lock = none) :
    Slot.Step workRun sl (.waited r)
      { sl with pc := if r = .failed then .errStore else .testRun }
  | errStore (hpc : sl.pc = .errStore) :
    Slot.Step workRun sl .go { sl with stat := .suspend, pc := .loop }
  | testRun (hpc : sl.pc = .testRun) :
    Slot.Step workRun sl .go
      { sl with pc := if sl.stat = .run then .takeSocket else .testSuspend }
  | takeSocket {c : Conn} (hpc : sl.pc = .takeSocket) (hsocket : sl.tstSocket = some c) :
    Slot.Step workRun sl .go { sl with pc := .job c }
  | takeNull (hpc : sl.pc = .takeSocket) (hsocket : sl.tstSocket = none) :
    Slot.Step workRun sl .go { sl with pc := .crashed }
  | lockEnd {c : Conn} {next : TstStat} (hpc : sl.pc = .lockEnd c next) (hlock : sl.lock = none) :
    Slot.Step workRun sl .go { sl with lock := some .worker, pc := .rearm c next }
  | storeNext {next : TstStat} (hpc : sl.pc = .storeNext next) :
    Slot.Step workRun sl .go { sl with stat := next, pc := .clearSocket }
  | clearSocket (hpc : sl.pc = .clearSocket) :
    Slot.Step workRun sl .go { sl with tstSocket := none, lock := none, pc := .loop }
  | testSuspend (hpc : sl.pc = .testSuspend) :
    Slot.Step workRun sl .go
      { sl with pc := if sl.stat = .suspend then .idleMark else .testExit }
  | idleMark (hpc : sl.pc = .idleMark) :
    Slot.Step workRun sl .go { sl with stat := .run, pc := .idleCall }
  | idleCall {next : TstStat} (hpc : sl.pc = .idleCall) :
    Slot.Step workRun sl (.idle next) { sl with pc := .idleStore next }
  | idleStore {next : TstStat} (hpc : sl.pc = .idleStore next) (hlock : sl.lock = none) :
    Slot.Step workRun sl .go { sl with stat := next, pc := .loop }
  | testExit (hpc : sl.pc = .testExit) :
    Slot.Step workRun sl .go { sl with pc := if sl.stat = .exit then .exitMark else .otherStore }
  | otherStore (hpc : sl.pc = .otherStore) (hlock : sl.lock = none) :
    Slot.Step workRun sl .go { sl with stat := .suspend, pc := .loop }
  | exitMark (hpc : sl.pc = .exitMark) :
    Slot.Step workRun sl .go { sl with stat := .exited, pc := .exitStore }
  | exitStore (hpc : sl.pc = .exitStore) :
    Slot.Step workRun sl .go { sl with stat := .exited, pc := .exited }

/-- The steps of `tst_work`. -/
inductive WorkerStep (s : State) (i : Nat) : WorkerInput → State → Prop
  | own {inp : WorkerInput} {sl : Slot} (hsl : Slot.Step s.workRun (s.slot i) inp sl) :
    WorkerStep s i inp (s.setSlot i sl)
  | job {c : Conn} {k : Kernel} (hpc : (s.slot i).pc = .job c) :
    WorkerStep s i (.kernel k)
      ((s.setSock c ((s.sock c).transfer k).sock).setSlot i
        { s.slot i with
          pc := if ((s.sock c).transfer k).next = .run then .call c
            else .lockEnd c ((s.sock c).transfer k).next })
  | call {c : Conn} {next : TstStat} {recv send : Option TstData}
    (hpc : (s.slot i).pc = .call c) :
    WorkerStep s i (.returned next recv send)
      ((s.setSock c { s.sock c with recv, send }).setSlot i
        { s.slot i with pc := .lockEnd c next })
  | rearmClose {c : Conn} (hpc : (s.slot i).pc = .rearm c .disconnect) (hsd : 0 < s.sd c) :
    WorkerStep s i .go
      ((s.setHolds i c false).setSlot i
        { s.slot i with pc := .closing ⟨s.sd c, .erase⟩ c })
  | rearm {c : Conn} {next : TstStat} {ok : Bool} (hpc : (s.slot i).pc = .rearm c next)
    (hnext : next ≠ .disconnect) (hsd : 0 < s.sd c) :
    WorkerStep s i (.ctl ok)
      (((s.ctlMod (s.sd c) (clientMask next) ok).setHolds i c false).setSlot i
        { s.slot i with pc := .storeNext (if next = .send then .suspend else next) })
  | rearmSkip {c : Conn} {next : TstStat} (hpc : (s.slot i).pc = .rearm c next)
    (hsd : s.sd c = 0) :
    WorkerStep s i .go
      (s.setSlot i
        { s.slot i with pc := .storeNext (if next = .disconnect then .suspend else next) })
  | closing {cl cl' : Closing} {c : Conn} {s₁ : State} (hpc : (s.slot i).pc = .closing cl c)
    (hclose : s.closeStep cl = (s₁, some cl')) :
    WorkerStep s i .go (s₁.setSlot i { s.slot i with pc := .closing cl' c })
  | closed {cl : Closing} {c : Conn} {s₁ : State} (hpc : (s.slot i).pc = .closing cl c)
    (hclose : s.closeStep cl = (s₁, none)) :
    WorkerStep s i .go (s₁.setSlot i { s.slot i with pc := .storeNext .suspend })

section Cases

variable {cfg : Config} {s s' : State} {i : Nat}

theorem Slot.step_cases {workRun : Bool} {sl sl' : Slot} {inp : WorkerInput}
    (h : sl.step workRun inp = some sl') : Slot.Step workRun sl inp sl' := by
  revert h
  fun_cases Slot.step workRun sl inp <;> intro h <;> cases h
  all_goals first
    | exact .otherStore ‹_› ‹_›
    | (constructor <;> assumption)

/-- What holds of every slot, after a change of one. -/
theorem forall_setSlot {P : Nat → Slot → Prop} {sl : Slot} (hi : P i sl)
    (hrest : ∀ j, j ≠ i → P j (s.slot j)) : ∀ j, P j ((s.setSlot i sl).slot j) :=
  (Function.forall_update_iff s.slot P).mpr ⟨hi, hrest⟩

theorem setSock_sd {c : Conn} {sock : TstSocket} (h : sock.sd = s.sd c) :
    (s.setSock c sock).sd = s.sd := by
  funext c'
  by_cases hc : c' = c
  · subst hc
    simp only [State.sd, State.setSock, Function.update_self]
    exact h
  · simp only [State.sd, State.setSock, Function.update_of_ne hc]

@[simp] theorem ctlAdd_slot (s : State) (fd : Fd) (mask : Events) (ok : Bool) :
    (s.ctlAdd fd mask ok).slot = s.slot := rfl

@[simp] theorem ctlMod_slot (s : State) (fd : Fd) (mask : Events) (ok : Bool) :
    (s.ctlMod fd mask ok).slot = s.slot := rfl

@[simp] theorem closeStep_main (s : State) (cl : Closing) :
    (s.closeStep cl).1.main = s.main := by
  rcases cl with ⟨sd, _ | _ | _⟩ <;> rfl

@[simp] theorem closeStep_batch (s : State) (cl : Closing) :
    (s.closeStep cl).1.batch = s.batch := by
  rcases cl with ⟨sd, _ | _ | _⟩ <;> rfl

@[simp] theorem closeStep_sock (s : State) (cl : Closing) :
    (s.closeStep cl).1.sock = s.sock := by
  rcases cl with ⟨sd, _ | _ | _⟩ <;> rfl

@[simp] theorem closeStep_slot (s : State) (cl : Closing) :
    (s.closeStep cl).1.slot = s.slot := by
  rcases cl with ⟨sd, _ | _ | _⟩ <;> rfl

theorem closeStep_mainRun (s : State) (cl : Closing) :
    (s.closeStep cl).1.mainRun = s.mainRun := by
  rcases cl with ⟨sd, _ | _ | _⟩ <;> rfl

@[simp] theorem closeStep_sd (s : State) (cl : Closing) : (s.closeStep cl).1.sd = s.sd := by
  rcases cl with ⟨sd, _ | _ | _⟩ <;> rfl

theorem closeStep_rest {cl cl' : Closing} {s₁ : State} (h : s.closeStep cl = (s₁, some cl')) :
    s₁ = (s.closeStep cl).1 ∧ cl'.sd = cl.sd ∧ cl'.phase ≠ .erase ∧ cl.phase ≠ .close := by
  refine ⟨by rw [h], ?_⟩
  have hrest : (s.closeStep cl).2 = some cl' := by rw [h]
  obtain ⟨sd, phase⟩ := cl
  cases phase with
  | erase =>
    obtain ⟨-, rfl⟩ : 0 < sd ∧ _ = cl' := by simpa [State.closeStep] using hrest
    exact ⟨rfl, by simp, by simp⟩
  | del =>
    obtain rfl : _ = cl' := by simpa [State.closeStep] using hrest
    exact ⟨rfl, by simp, by simp⟩
  | close => simp [State.closeStep] at hrest

theorem closeStep_done {cl : Closing} {s₁ : State} (h : s.closeStep cl = (s₁, none)) :
    s₁ = (s.closeStep cl).1 ∧ (cl.phase = .close ∨ cl.phase = .erase ∧ cl.sd = 0) := by
  refine ⟨by rw [h], ?_⟩
  have hrest : (s.closeStep cl).2 = none := by rw [h]
  obtain ⟨sd, phase⟩ := cl
  cases phase with
  | erase => simpa [State.closeStep] using hrest
  | del => simp [State.closeStep] at hrest
  | close => exact .inl rfl

/-- From its first step on a call of `closesocket` leaves its descriptor without entry. -/
theorem closeStep_connect {cl : Closing} (h : cl.phase ≠ .erase → s.connect cl.sd = none) :
    (s.closeStep cl).1.connect cl.sd = none := by
  obtain ⟨sd, phase⟩ := cl
  cases phase with
  | erase => simp [State.closeStep]
  | del | close => exact h (by simp)

theorem deliverOne_eq {ev : Fd × Events} (h : s.deliverOne cfg ev = some s') :
    ∃ r src, s.reg ev.1 = some r ∧ s.owner ev.1 = some src ∧ r.armed = true ∧
      r.offers ev.2 = true ∧
      s' = { s.setReg ev.1 (some { r with armed := false }) with
        batch := ⟨ev.1, ev.2, src⟩ :: s.batch } := by
  revert h
  fun_cases State.deliverOne cfg s ev <;> intro h <;> cases h
  next r src howner hreg hr => exact ⟨r, src, hreg, howner, hr.1, hr.2.1, rfl⟩

/-- What each event of a batch preserves, the whole batch preserves. -/
theorem deliver_invariant {P : State → Prop} {evs : List (Fd × Events)}
    (hone : ∀ s ev s', ev ∈ evs → P s → s.deliverOne cfg ev = some s' → P s') (hs : P s)
    (h : s.deliver cfg evs = some s') : P s' := by
  induction evs generalizing s with
  | nil =>
    obtain rfl : s = s' := by simpa [State.deliver] using h
    exact hs
  | cons ev evs ih =>
    obtain ⟨s₁, hfirst, hrest⟩ : ∃ s₁, s.deliverOne cfg ev = some s₁ ∧
        s₁.deliver cfg evs = some s' := by
      simpa [State.deliver, List.foldlM_cons, Option.bind_eq_some_iff] using h
    exact ih (fun s e s' he => hone s e s' (List.mem_cons_of_mem _ he))
      (hone s ev s₁ (List.mem_cons_self ..) hs hfirst) hrest

/-- `epoll_wait` fills the batch and disarms registrations. -/
theorem deliver_frame {evs : List (Fd × Events)} (h : s.deliver cfg evs = some s') :
    ∃ batch reg, s' = { s with batch := batch, reg := reg } := by
  refine deliver_invariant (P := fun t => ∃ batch reg, t = { s with batch := batch, reg := reg })
    ?_ ⟨s.batch, s.reg, rfl⟩ h
  rintro t ev t' - ⟨batch, reg, rfl⟩ hone
  obtain ⟨r, src, -, -, -, -, rfl⟩ := deliverOne_eq hone
  exact ⟨_, _, rfl⟩

theorem closeStep_frame (s : State) (cl : Closing) :
    ∃ connect owner reg, (s.closeStep cl).1 =
      { s with connect := connect, owner := owner, reg := reg } := by
  rcases cl with ⟨sd, _ | _ | _⟩ <;> exact ⟨_, _, _, rfl⟩

theorem takeEvent_cases (s : State) :
    s.batch = [] ∧ s.takeEvent = s ∨
      ∃ e rest, s.batch = e :: rest ∧ s.takeEvent = { s with main := .event e, batch := rest } := by
  cases hbatch : s.batch with
  | nil => exact .inl ⟨rfl, by simp only [State.takeEvent, hbatch]⟩
  | cons e rest => exact .inr ⟨e, rest, rfl, by simp only [State.takeEvent, hbatch]⟩

theorem accept_cases {e : Event} {r : Option Fd} (hpc : s.main = .event e)
    (hfd : e.fd = cfg.sockmain) (hlisten : cfg.listening = true)
    (hin : e.events.epollin = true) (h : s.accept cfg r = some s') :
    MainStep cfg s (.accept r) s' := by
  revert h
  fun_cases State.accept cfg s r <;> intro h <;> cases h
  · next hpos howner => exact .accept hpc hfd hlisten hpos howner.1 howner.2
  · next hpos =>
    refine .acceptError hpc hfd hlisten hin fun fd hr => ?_
    rw [← Option.some.inj hr]
    exact Nat.eq_zero_of_not_pos hpos
  · exact .acceptError hpc hfd hlisten hin (by simp)

theorem eventStep_cases {e : Event} {inp : MainInput} (hpc : s.main = .event e)
    (h : eventStep cfg s e inp = some s') : MainStep cfg s inp s' := by
  revert h
  fun_cases eventStep cfg s e inp <;> intro h <;> try cases h
  · next hmain _ hin => exact accept_cases hpc hmain.1 hmain.2 hin h
  · next hmain hin => exact .listenOther hpc hmain.1 hmain.2 (Bool.eq_false_iff.mpr hin)
  · next hmain hfd =>
    exact .reconnected hpc hfd (Bool.eq_false_iff.mpr fun hl => hmain ⟨hfd, hl⟩)
  · next hmain _ _ _ => exact .toClient hpc hmain
  · next hmain => exact .toClient hpc hmain

/-- Every step of `tst_main` is in its table. -/
theorem mainStep_cases {inp : MainInput} (h : mainStep cfg s inp = some s') :
    MainStep cfg s inp s' := by
  revert h
  fun_cases mainStep cfg s inp <;> intro h <;> try cases h
  all_goals try (constructor <;> assumption)
  · next hpc hrun hbatch =>
    obtain ⟨e, rest, hcons⟩ := List.exists_cons_of_ne_nil hbatch
    simp only [State.takeEvent, hcons]
    exact .loopEvent hpc hrun hcons
  · next hpc hrun => exact .loopStop hpc (Bool.eq_false_iff.mpr hrun)
  · next hpc hrun =>
    obtain ⟨s₁, hdel, rfl⟩ := Option.map_eq_some_iff.mp h
    exact .epollWait hpc hrun.1 hrun.2 hdel
  · next hpc => exact eventStep_cases hpc h
  · next hpc hmap => exact .unlisted hpc (by simpa using hmap)
  · next next _ _ hpc =>
    by_cases hnext : next < .reconnected
    · simp only [hnext, if_true]
      exact .fconnected hpc hnext
    · simp only [hnext, if_false]
      exact .refuse hpc hnext
  · next hpc hi hstat => exact .scanFree hpc hi ((TstStat.lt_run_iff _).mp hstat)
  · next hpc hi hlock hstat =>
    exact .exitScanFree hpc hlock ((TstStat.lt_run_iff _).mp hstat)

theorem rearmStep_cases {c : Conn} {next : TstStat} {inp : WorkerInput}
    (hpc : (s.slot i).pc = .rearm c next) (h : rearmStep s i c next inp = some s') :
    WorkerStep s i inp s' := by
  revert h
  fun_cases rearmStep s i c next inp <;> intro h <;> cases h
  · next hsd hnext =>
    rw [of_decide_eq_true hnext] at hpc
    exact .rearmClose hpc hsd
  · next hsd _ hnext => exact .rearm hpc (of_decide_eq_false hnext) hsd
  · next hsd => exact .rearmSkip hpc (Nat.eq_zero_of_not_pos hsd)

/-- Every step of `tst_work` is in its table. -/
theorem workerStep_cases {inp : WorkerInput} (h : workerStep s i inp = some s') :
    WorkerStep s i inp s' := by
  revert h
  fun_cases workerStep s i inp <;> intro h <;> try cases h
  all_goals try (constructor <;> assumption)
  · next hpc => exact rearmStep_cases hpc h
  · obtain ⟨sl, hsl, rfl⟩ := Option.map_eq_some_iff.mp h
    exact .own (Slot.step_cases hsl)

end Cases

-- ════════════════════════════════════════════════════════════════════════
-- A server with two workers
-- ════════════════════════════════════════════════════════════════════════

/-- A pool with two workers whose main socket 3 listens. -/
def Config.server : Config where
  threadCount := 2
  sockmain := 3
  listening := true
  sockmain_pos := by decide

/-- `tst_main` accepts a connection with descriptor `fd`, which needs no buffers. -/
def acceptRun (fd : Fd) (next : TstStat) : List Action :=
  [.main (.epollWait [(3, { epollin := true })]), .main (.accept (some fd)), .main .go,
    .main .go, .main (.fconnected next none none), .main (.ctl true), .main (.ctl true)]

/-- `tst_main` fetches an event of the descriptor and comes to the lookup. -/
def lookupRun (fd : Fd) (e : Events) : List Action :=
  [.main (.epollWait [(fd, e)]), .main .go, .main (.ioctl false 1)]

/-- The event is dispatched to the first worker, if that one is free. -/
def assignRun (fd : Fd) (e : Events) : List Action :=
  lookupRun fd e ++ [.main .go, .main .go, .main .go, .main .go]

/-- Worker `i` does a job: it wakes up, and its user function returns `next`. -/
def jobRun (i : Nat) (next : TstStat) : List Action :=
  [.worker i .go, .worker i .go, .worker i (.waited .signaled), .worker i .go, .worker i .go,
    .worker i (.kernel .three), .worker i (.returned next none none)]

end Tst.Pool
