import Mathlib.Logic.Function.Basic
import Tst.Work.Transfer

/-!
# States of the thread pool

One state of `tstpool` with its main thread, its work threads, the other threads that
call into it, and the part of the kernel that it relies on: the open descriptors and the
epoll registrations.

Threads are followed from one access to shared data to the next. `MainPc` and `WorkerPc`
name the points between these accesses. A mutex section is entered by taking the slot's
`lock`; accesses that the program makes without the lock can fall between the accesses of
a section.
-/

namespace Tst.Pool

/-- A descriptor number. -/
abbrev Fd := Nat

/-- A connection, numbered in the order in which connections came up. The number stands
also for the `TST_SOCKET` made for the connection. -/
abbrev Conn := Nat

/-- What an open descriptor refers to. -/
inductive Endpoint
  | listen
  | conn (c : Conn)
  deriving DecidableEq, Repr

/-- A one-shot epoll registration: armed until its next event. -/
structure Registration where
  mask : Events
  armed : Bool
  deriving DecidableEq, Repr

/-- An event as fetched by `epoll_wait`. `src` is history: the endpoint on which it
occurred, which the program does not see. -/
structure Event where
  fd : Fd
  events : Events
  src : Endpoint
  deriving DecidableEq, Repr

/-- The result of `pthread_cond_timedwait`: 0, `ETIMEDOUT` or another error. -/
inductive Waited
  | signaled | timedOut | failed
  deriving DecidableEq, Repr

/-- How far a call of `closesocket` has come. -/
inductive ClosePhase
  | erase | del | close
  deriving DecidableEq, Repr

/-- A call `closesocket(sd)` under way. -/
structure Closing where
  sd : Fd
  phase : ClosePhase := .erase
  deriving DecidableEq, Repr

/-- The points of `tst_work`, each named by what the thread does next. Where a section
of the mutex holds a single access, the point stands for the whole section. -/
inductive WorkerPc
  | loop | testWait | waiting | errStore
  | testRun | takeSocket | job (c : Conn) | call (c : Conn)
  | lockEnd (c : Conn) (next : TstStat) | rearm (c : Conn) (next : TstStat)
  | closing (cl : Closing) (c : Conn) | storeNext (next : TstStat) | clearSocket
  | testSuspend | idleMark | idleCall | idleStore (next : TstStat)
  | testExit | otherStore | exitMark | exitStore | exited | crashed
  deriving DecidableEq, Repr

/-- Who holds the mutex of a slot. Only the main thread and the slot's own worker use it. -/
inductive Holder
  | main | worker
  deriving DecidableEq, Repr

/-- `TST_THREAD_INFO` with the position of its thread. -/
structure Slot where
  pc : WorkerPc := .loop
  stat : TstStat := .suspend
  tstSocket : Option Conn := none
  lock : Option Holder := none
  deriving DecidableEq, Repr

/-- An event on its way to a worker: the socket found for it and the `ioctl` count. -/
structure Dispatch where
  ev : Event
  conn : Conn
  checkLen : UInt32
  deriving DecidableEq, Repr

/-- Where `tst_main` goes on after a call of `closesocket`. -/
inductive AfterClose
  | add (c : Conn)
  | refused (c : Conn)
  | event (e : Event)
  deriving DecidableEq, Repr

/-- The points of `tst_main`, each named by what the thread does next. An event is taken
out of the batch while it is handled. -/
inductive MainPc
  | loop | event (e : Event)
  | accepted (c : Conn) | add (c : Conn) | fconnected (c : Conn)
  | register (c : Conn) (next : TstStat) | rearmListen
  | client (e : Event) | lookup (e : Event) (checkLen : UInt32)
  | scan (d : Dispatch) (i : Nat) | setRun (d : Dispatch) (i : Nat)
  | setSocket (d : Dispatch) (i : Nat)
  | closing (cl : Closing) (after : AfterClose)
  | stopWork | exitScan (i : Nat) | exitStore (i : Nat) | done | crashed
  deriving DecidableEq, Repr

/-- What is fixed for a pool: `m_thread_count`, `m_sockmain`, whether the main socket
listens (`m_socktype == sock_listen`) or was connected by the user, and the buffer sizes. -/
structure Config where
  threadCount : Nat
  sockmain : Fd
  listening : Bool
  recvBufSize : UInt32 := 4096
  sendBufSize : UInt32 := 4096
  sockmain_pos : 0 < sockmain

/-- A state of the pool. `holds` is history: worker `i` holds the socket `c` from the
assignment of `tst_socket` until it re-arms the socket or calls `closesocket` for it. -/
structure State where
  mainRun : Bool := true
  workRun : Bool := true
  main : MainPc := .loop
  /-- events not handled yet, the next one first -/
  batch : List Event := []
  slot : Nat → Slot := fun _ => {}
  /-- `m_connect` -/
  connect : Fd → Option Conn
  sock : Conn → TstSocket
  /-- the open descriptors -/
  owner : Fd → Option Endpoint
  /-- the epoll registrations -/
  reg : Fd → Option Registration
  /-- the number of the next connection -/
  fresh : Conn
  /-- calls of `closesocket` by threads outside the pool -/
  others : Nat → Option Closing := fun _ => none
  holds : Nat → Conn → Bool := fun _ _ => false

namespace State

@[simp] def setSlot (s : State) (i : Nat) (sl : Slot) : State :=
  { s with slot := Function.update s.slot i sl }

@[simp] def setSock (s : State) (c : Conn) (sock : TstSocket) : State :=
  { s with sock := Function.update s.sock c sock }

@[simp] def setReg (s : State) (fd : Fd) (r : Option Registration) : State :=
  { s with reg := Function.update s.reg fd r }

@[simp] def setConnect (s : State) (fd : Fd) (c : Option Conn) : State :=
  { s with connect := Function.update s.connect fd c }

@[simp] def setOwner (s : State) (fd : Fd) (o : Option Endpoint) : State :=
  { s with owner := Function.update s.owner fd o }

@[simp] def setHolds (s : State) (i : Nat) (c : Conn) (b : Bool) : State :=
  { s with holds := Function.update s.holds i (Function.update (s.holds i) c b) }

/-- The descriptor of a connection's socket. -/
def sd (s : State) (c : Conn) : Fd := (s.sock c).sd

end State

/-- The state in which `tst_main` enters its loop: the main socket is registered, and a
main socket that the user connected stands in `m_connect`. -/
def State.init (cfg : Config) : State :=
  if cfg.listening then
    { connect := fun _ => none
      sock := fun _ => { sd := 0 }
      owner := Function.update (fun _ => none) cfg.sockmain (some .listen)
      reg := Function.update (fun _ => none) cfg.sockmain (some ⟨.base, true⟩)
      fresh := 0 }
  else
    { connect := Function.update (fun _ => none) cfg.sockmain (some 0)
      sock := Function.update (fun _ => { sd := 0 }) 0
        (({ sd := cfg.sockmain } : TstSocket).addBuffers cfg.recvBufSize cfg.sendBufSize)
      owner := Function.update (fun _ => none) cfg.sockmain (some (.conn 0))
      reg := Function.update (fun _ => none) cfg.sockmain (some ⟨.base, true⟩)
      fresh := 1 }

end Tst.Pool
