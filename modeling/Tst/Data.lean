import Tst.Lib.Bytes

/-!
# Data of the thread pool

The types of `tst.h`: states of a work thread, epoll event masks, transfer buffers and
sockets. A buffer `s[]` is the list of the bytes allocated for it; `sLen` is the size
that the program has noted for it.
-/

namespace Tst

/-- `TST_STAT`: the state of a work thread, and what a user function returns. -/
inductive TstStat
  | suspend | run | send | reconnected | disconnect | exit | exited
  deriving DecidableEq, Repr

namespace TstStat

/-- The numbers of the enumeration, by which the program compares states. -/
def code : TstStat → Nat
  | suspend => 0
  | run => 1
  | send => 2
  | reconnected => 3
  | disconnect => 4
  | exit => 9
  | exited => 10

instance : LT TstStat := ⟨fun a b => a.code < b.code⟩

instance (a b : TstStat) : Decidable (a < b) := inferInstanceAs (Decidable (a.code < b.code))

@[simp] theorem lt_run_iff (a : TstStat) : a < run ↔ a = suspend := by
  cases a <;> decide

end TstStat

/-- The epoll event bits that the pool uses. `EPOLLONESHOT` is set in every mask the
pool registers and is not listed. -/
structure Events where
  epollin : Bool := false
  epollpri : Bool := false
  epollout : Bool := false
  epollrdhup : Bool := false
  epollerr : Bool := false
  epollhup : Bool := false
  deriving DecidableEq, Repr

namespace Events

/-- `TST_EPOLL_BASE_EVENTS`. -/
def base : Events where
  epollin := true
  epollpri := true
  epollrdhup := true
  epollerr := true
  epollhup := true

/-- `TST_EPOLL_BASE_EVENTS | EPOLLOUT`. -/
def baseOut : Events := { base with epollout := true }

/-- `events & EPOLLIN || events & EPOLLPRI`: the first branch of a job. -/
def input (e : Events) : Bool := e.epollin || e.epollpri

/-- The bits that lead a job to its second branch, the one for `EPOLLOUT`. -/
def takesOut (e : Events) : Bool := !e.input && e.epollout

/-- `events & (EPOLLHUP | EPOLLRDHUP | EPOLLERR)`. -/
def hangup (e : Events) : Bool := e.epollhup || e.epollrdhup || e.epollerr

end Events

/-- `TST_DATA`: a receive or send buffer. -/
structure TstData where
  reqPos : UInt32 := 0
  reqLen : UInt32 := 0
  comLen : UInt32 := 0
  checkedLen : UInt32 := 0
  sLen : UInt32
  s : List UInt8
  deriving DecidableEq, Repr

namespace TstData

/-- `s[]` has room for the `s_len` bytes that the program has noted. -/
def WF (d : TstData) : Prop := d.sLen.toNat ≤ d.s.length

/-- `calloc(sizeof(TST_DATA) + n, 1)` with `s_len = n`. -/
def alloc (n : UInt32) : TstData where
  sLen := n
  s := List.replicate n.toNat 0

/-- `TST_DATA::reset_data`. -/
def resetData (d : TstData) : TstData :=
  { d with
    reqLen := 0
    reqPos := 0
    comLen := 0
    s := Bytes.splice d.s 0 (List.replicate d.sLen.toNat 0) }

/-- The index `req_pos + com_len` at which a transfer goes on. -/
def pos (d : TstData) : Nat := d.reqPos.toNat + d.comLen.toNat

/-- More is to be moved: `com_len < req_len`. -/
def Pending (d : TstData) : Prop := d.comLen < d.reqLen

instance (d : TstData) : Decidable d.Pending := inferInstanceAs (Decidable (_ < _))

theorem alloc_wf (n : UInt32) : (alloc n).WF := by
  simp [WF, alloc]

@[simp] theorem resetData_sLen (d : TstData) : d.resetData.sLen = d.sLen := rfl
@[simp] theorem resetData_reqLen (d : TstData) : d.resetData.reqLen = 0 := rfl
@[simp] theorem resetData_reqPos (d : TstData) : d.resetData.reqPos = 0 := rfl
@[simp] theorem resetData_comLen (d : TstData) : d.resetData.comLen = 0 := rfl

@[simp] theorem length_resetData (d : TstData) : d.resetData.s.length = d.s.length := by
  simp [resetData]

end TstData

/-- A receive buffer as `reset_data` or `calloc` left it, into which these bytes have
been read. -/
def holding (sLen : UInt32) (h : List UInt8) : TstData where
  comLen := UInt32.ofNat h.length
  sLen := sLen
  s := h ++ List.replicate (sLen.toNat - h.length) 0

theorem comLen_holding {sLen : UInt32} {h : List UInt8} (hlen : h.length < sLen.toNat) :
    (holding sLen h).comLen.toNat = h.length := by
  have hlt := sLen.toNat_lt
  simp only [holding, UInt32.toNat_ofNat']
  omega

/-- `TST_SOCKET`, as far as the pool itself uses it. -/
structure TstSocket where
  sd : Nat
  events : Events := {}
  recv : Option TstData := none
  send : Option TstData := none
  deriving DecidableEq, Repr

namespace TstSocket

/-- `TST_SOCKET::initBuffer` on a new socket. -/
def initBuffer (sock : TstSocket) (recvLen sendLen : UInt32) : TstSocket :=
  { sock with
    recv := if recvLen > 1 then some (.alloc recvLen) else sock.recv
    send := if sendLen > 1 then some (.alloc sendLen) else sock.send }

/-- The buffers that `tstpool::addsocket` adds where there is none. It does not set their
`s_len`. -/
def addBuffers (sock : TstSocket) (recvLen sendLen : UInt32) : TstSocket :=
  let bare (n : UInt32) : TstData := { TstData.alloc n with sLen := 0 }
  { sock with
    recv := if recvLen ≠ 0 ∧ sock.recv = none then some (bare recvLen) else sock.recv
    send := if sendLen ≠ 0 ∧ sock.send = none then some (bare sendLen) else sock.send }

/-- What `tst_main` stores in a socket that it hands to a worker: the event bits, and the
count that its `ioctl` gave. -/
def handEvents (sock : TstSocket) (e : Events) (checkLen : UInt32) : TstSocket :=
  if e.input ∧ sock.recv.isSome then
    { sock with
      events := e
      recv := sock.recv.map fun d => { d with checkedLen := checkLen } }
  else if e.epollout ∧ sock.send.isSome then
    { sock with
      events := e
      send := sock.send.map fun d => { d with checkedLen := checkLen } }
  else { sock with events := e }

@[simp] theorem initBuffer_sd (sock : TstSocket) (m n : UInt32) :
    (sock.initBuffer m n).sd = sock.sd := rfl

@[simp] theorem addBuffers_sd (sock : TstSocket) (m n : UInt32) :
    (sock.addBuffers m n).sd = sock.sd := rfl

@[simp] theorem handEvents_sd (sock : TstSocket) (e : Events) (n : UInt32) :
    (sock.handEvents e n).sd = sock.sd := by
  simp only [handEvents]
  split
  · rfl
  · split <;> rfl

@[simp] theorem handEvents_events (sock : TstSocket) (e : Events) (n : UInt32) :
    (sock.handEvents e n).events = e := by
  simp only [handEvents]
  split
  · rfl
  · split <;> rfl

end TstSocket

/-- What `read(sd, p, n)` may answer: up to `n` bytes, or -1. -/
abbrev ReadResult (n : Nat) := Option { bs : List UInt8 // bs.length ≤ n }

/-- What `write(sd, p, n)` may answer: the number of bytes taken, or -1. -/
abbrev WriteResult (n : Nat) := Option (Fin (n + 1))

/-- The kernel's answers to the calls that a work thread makes for one job. -/
structure Kernel where
  /-- `ioctl(sd, SIOCINQ, …)`: the number of unread bytes, or an error -/
  siocinq : Option UInt32
  read : (n : Nat) → ReadResult n
  write : (n : Nat) → WriteResult n

/-- `com_len += rc` for the signed result `rc` of `read()` or `write()`; `none` is -1. -/
def addResult (comLen : UInt32) : Option Nat → UInt32
  | some n => comLen + UInt32.ofNat n
  | none => comLen - 1

theorem addResult_none_ne (c : UInt32) : (addResult c none).toNat ≠ c.toNat := by
  have := c.toNat_lt
  simp only [addResult, UInt32.toNat_sub, UInt32.reduceToNat]
  omega

theorem toNat_addResult_some {c : UInt32} {n : Nat} (h : c.toNat + n < 2 ^ 32) :
    (addResult c (some n)).toNat = c.toNat + n := by
  simp only [addResult, UInt32.toNat_add, UInt32.toNat_ofNat']
  omega

end Tst
