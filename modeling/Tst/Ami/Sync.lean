import Mathlib.Logic.Function.Basic
import Tst.Ami.Event

/-!
# Actions and responses

`ami_sync` and `ami_async` are called by any number of threads. One thread at a time runs
`ami_event` on what the server sends, and closes the connection when it is lost. They share
`AMI_MANAGE`, the pointer `ami_socket` and the `AMI_RESPONSE` of the call that waits.

Threads are followed from one access to shared data to the next, as in the thread pool. What
a thread does while it holds a mutex is split where another thread reads the same data
without the mutex.

## Main definitions

- `Call`, `EventPc`, `State` — the calls, the positions of `ami_event`, and what they share
- `callStep`, `eventStep` — one step of a call and one step of `ami_event`
- `step` — one step of the connection

## Main results

- `CallStep`, `EventStep`, `Step` — the steps as tables, one row per point
- `step_cases` — every step is in the table
-/

namespace Tst.Ami

open CString

/-- What is fixed for a call: whether it is `ami_sync` or `ami_async`, and whether its format
is the send buffer. -/
structure Kind where
  sync : Bool
  fmtIsSend : Bool := false
  deriving DecidableEq, Repr

/-- The points of a call, each named by what it does next. `ami_async` takes no part in what
is between `incLoad` and `lockResp` and between `wait` and `unlockResp`. -/
inductive CallPc
  | start | typeTest | fmtTest | sendPtr | lockAmi
  | incLoad | incStore (n : UInt32) | lockResp
  | print | setMode | publish | write
  | wait | waiting | relock (timedOut : Bool) | timeoutTest (timedOut : Bool)
  | decLoad | decStore (n : UInt32) | unlockResp | unlockAmi
  | leaving | returned | crashed
  deriving DecidableEq, Repr

/-- A call with its `AMI_RESPONSE`. `id` is the number that it has printed and `out` the
response as it was returned. `completedBy` and `cut` are history: the message that has
completed the response, and whether the call was under way when the connection was lost. -/
structure Call where
  kind : Kind
  pc : CallPc := .start
  resp : AmiResponse := {}
  id : UInt32 := 0
  out : Option AmiResponse := none
  completedBy : Option Nat := none
  cut : Bool := false

/-- The points of `ami_event` from a complete message on, each named by what it does next;
then those of the thread that closes the connection. -/
inductive EventPc (ι : Type)
  | idle
  | test (m : List UInt8) | waitcount (m : List UInt8)
  | pointer (m : List UInt8) | mode (m : List UInt8) (p : ι) | misuse (m : List UInt8)
  | incLoad (m : List UInt8) | incStore (m : List UInt8) (n : UInt32) | lock (m : List UInt8)
  | take (m : List UInt8) | less (m : List UInt8) (p : ι) (id : UInt32)
  | greater (m : List UInt8) (p : ι) (id : UInt32)
  | fill (m : List UInt8) (p : ι) (past : Bool) | result (m : List UInt8) (p : ι) (past : Bool)
  | clear (m : List UInt8) (p : ι) | signal (m : List UInt8)
  | decLoad (m : List UInt8) (done : Bool) | decStore (m : List UInt8) (done : Bool) (n : UInt32)
  | unlock (m : List UInt8) (done : Bool) | handler (m : List UInt8)
  | disconnected | deleted
  deriving DecidableEq

/-- Who holds `mutexResp`. -/
inductive Holder (ι : Type)
  | call (i : ι)
  | event
  deriving DecidableEq

/-- What a run has done so far: a call has written its action, `ami_event` has taken the
message `n` for the response of a call or has used that response, a call has returned, or it
has used the NULL `ami_socket` or something that has been deleted. -/
inductive Mark (ι : Type)
  | wrote (i : ι)
  | took (i : ι) (n : Nat)
  | access (i : ι)
  | returned (i : ι)
  | null (i : ι)
  | dangling (i : ι)
  deriving DecidableEq

/-- The shared data, the calls, and the position of `ami_event`. `messages` and `log` are
history. -/
structure State (ι : Type) where
  /-- `ami_socket` is not NULL -/
  socket : Bool := true
  /-- the `TST_SOCKET` has been deleted, with its buffers and its `AMI_MANAGE` -/
  deleted : Bool := false
  mutexAMI : Option ι := none
  mutexResp : Option (Holder ι) := none
  /-- the calls that wait for `condResp` -/
  waiters : List ι := []
  respWaitcount : UInt32 := 0
  actionid : UInt32
  pResp : Option ι := none
  call : ι → Call
  event : EventPc ι := .idle
  messages : List (List UInt8) := []
  log : List (Mark ι) := []

variable {ι : Type} [DecidableEq ι]

namespace State

@[simp] def setCall (s : State ι) (i : ι) (c : Call) : State ι :=
  { s with call := Function.update s.call i c }

/-- The call goes on at `pc`. -/
@[simp] def goto (s : State ι) (i : ι) (pc : CallPc) : State ι :=
  s.setCall i { s.call i with pc }

/-- The call returns with this result. -/
@[simp] def finish (s : State ι) (i : ι) (result : Int) : State ι :=
  s.setCall i { s.call i with
    pc := .leaving
    resp := { (s.call i).resp with result } }

/-- The call does what it must not do. -/
@[simp] def crash (s : State ι) (i : ι) (mark : Mark ι) : State ι :=
  { s.goto i .crashed with log := s.log ++ [mark] }

/-- The number of the message that `ami_event` handles. -/
def current (s : State ι) : Nat := s.messages.length - 1

end State

-- ════════════════════════════════════════════════════════════════════════
-- Calls
-- ════════════════════════════════════════════════════════════════════════

/-- What the call does next begins with a read of what `ami_socket` points at. -/
def CallPc.readsSocket : CallPc → Bool
  | typeTest | fmtTest | sendPtr | write => true
  | _ => false

/-- What the call does next uses the send buffer or the `AMI_MANAGE`. -/
def CallPc.usesManage : CallPc → Bool
  | lockAmi | incLoad | lockResp | print | publish | write | wait | decLoad | unlockResp
  | unlockAmi | incStore _ | relock _ | decStore _ => true
  | _ => false

/-- One step of a call on a connection that is there. -/
def callMove (s : State ι) (i : ι) : Option (State ι) :=
  let c := s.call i
  match c.pc with
  | .start => some (if s.socket then s.goto i .typeTest else s.finish i (-99))
  | .typeTest => some (s.goto i .fmtTest)
  | .fmtTest =>
    some (if c.kind.fmtIsSend then s.finish i (-98)
      else s.goto i (if c.kind.sync then .sendPtr else .lockAmi))
  | .sendPtr => some (s.goto i (if c.kind.sync then .lockAmi else .print))
  | .lockAmi =>
    if s.mutexAMI = none then
      some { s.goto i (if c.kind.sync then .incLoad else .sendPtr) with mutexAMI := some i }
    else none
  | .incLoad => some (s.goto i (.incStore (s.respWaitcount + 1)))
  | .incStore n => some { s.goto i .lockResp with respWaitcount := n }
  | .lockResp =>
    if s.mutexResp = none then some { s.goto i .print with mutexResp := some (.call i) } else none
  | .print =>
    some { s.setCall i { c with
        id := s.actionid + 1
        pc := if c.kind.sync then .setMode else .write } with
      actionid := s.actionid + 1 }
  | .setMode => some (s.setCall i { c with resp := { c.resp with mode := .request }, pc := .publish })
  | .publish => some { s.goto i .write with pResp := some i }
  | .write =>
    some { s.goto i (if c.kind.sync then .wait else .unlockAmi) with log := s.log ++ [.wrote i] }
  | .wait => some { s.goto i .waiting with mutexResp := none, waiters := s.waiters ++ [i] }
  | .waiting => none
  | .relock timedOut =>
    if s.mutexResp = none then
      some { s.goto i (.timeoutTest timedOut) with mutexResp := some (.call i) }
    else none
  | .timeoutTest timedOut =>
    some (s.setCall i { c with
      resp := if timedOut then { c.resp with result := -8 } else c.resp
      pc := .decLoad })
  | .decLoad => some (s.goto i (.decStore (s.respWaitcount - 1)))
  | .decStore n => some { s.goto i .unlockResp with respWaitcount := n }
  | .unlockResp => some { s.goto i .unlockAmi with mutexResp := none }
  | .unlockAmi => some { s.goto i .leaving with mutexAMI := none }
  | .leaving =>
    some { s.setCall i { c with pc := .returned, out := some c.resp } with
      log := s.log ++ [.returned i] }
  | .returned => none
  | .crashed => none

/-- One step of a call. -/
def callStep (s : State ι) (i : ι) : Option (State ι) :=
  if (s.call i).pc.readsSocket ∧ s.socket = false then some (s.crash i (.null i))
  else if (s.call i).pc.usesManage ∧ s.deleted = true then some (s.crash i (.dangling i))
  else callMove s i

-- ════════════════════════════════════════════════════════════════════════
-- `ami_event`
-- ════════════════════════════════════════════════════════════════════════

/-- One step of `ami_event`; `k` chooses which of the waiters a signal wakes. A NULL that is
dereferenced and a table that overflows end the run. -/
def eventStep (s : State ι) (k : Nat) : Option (State ι) :=
  match s.event with
  | .idle => none
  | .test m =>
    some { s with
      event := if s.pResp.isSome ∧ (textResponse ++ [58]).isPrefixOf m then .waitcount m
        else .handler m }
  | .waitcount m =>
    some { s with event := if s.respWaitcount ≠ 0 then .pointer m else .misuse m }
  | .pointer m => s.pResp.map fun p => { s with event := .mode m p }
  | .mode m p =>
    some { s with
      event := if (s.call p).resp.mode = .request then .incLoad m else .misuse m
      log := s.log ++ [.access p] }
  | .misuse m => some { s with event := .handler m, pResp := none }
  | .incLoad m => some { s with event := .incStore m (s.respWaitcount + 1) }
  | .incStore m n => some { s with event := .lock m, respWaitcount := n }
  | .lock m =>
    if s.mutexResp = none then some { s with event := .take m, mutexResp := some .event } else none
  | .take m =>
    s.pResp.bind fun p =>
      match (s.call p).resp.takeMessage m with
      | .error _ => none
      | .ok resp =>
        match resp.responses.actionId with
        | .error _ => none
        | .ok id =>
          some { s.setCall p { s.call p with resp } with
            event := .less m p id
            log := s.log ++ [.access p, .took p s.current] }
  | .less m p id =>
    some { s with event := if id < s.actionid then .decLoad m false else .greater m p id }
  | .greater m p id => some { s with event := .fill m p (s.actionid < id) }
  | .fill m p past =>
    some { s.setCall p { s.call p with resp := { (s.call p).resp with mode := .response } } with
      event := .result m p past
      log := s.log ++ [.access p] }
  | .result m p past =>
    match if past then .ok (s.call p).resp.refuse else (s.call p).resp.accept with
    | .error _ => none
    | .ok resp =>
      some { s.setCall p { s.call p with resp, completedBy := some s.current } with
        event := .clear m p
        log := s.log ++ [.access p] }
  | .clear m _ => some { s with event := .signal m, pResp := none }
  | .signal m =>
    match s.waiters[k]? with
    | some j =>
      some { s.goto j (.relock false) with
        event := .decLoad m true
        waiters := s.waiters.filter (· ≠ j) }
    | none => if s.waiters = [] then some { s with event := .decLoad m true } else none
  | .decLoad m done => some { s with event := .decStore m done (s.respWaitcount - 1) }
  | .decStore m done n => some { s with event := .unlock m done, respWaitcount := n }
  | .unlock m done =>
    some { s with event := if done then .idle else .handler m, mutexResp := none }
  | .handler _ => some { s with event := .idle }
  | .disconnected => none
  | .deleted => none

/-- A step of a call, its `pthread_cond_timedwait` that times out, a message that has been
received, a step of `ami_event`; and the connection is lost: `ami_socket` is set to NULL, and
the socket is deleted. -/
inductive Action (ι : Type)
  | call (i : ι)
  | timeout (i : ι)
  | message (m : List UInt8)
  | event (k : Nat)
  | disconnect
  | delete
  deriving DecidableEq

/-- The call has found a connection and has not returned. -/
def CallPc.inFlight : CallPc → Bool
  | start | returned | crashed => false
  | _ => true

/-- One step. The connection is closed by the thread that runs `ami_event`, or by another one
while no thread runs it. -/
def step (s : State ι) : Action ι → Option (State ι)
  | .call i => callStep s i
  | .timeout i =>
    if (s.call i).pc = .waiting then
      some { s.goto i (.relock true) with waiters := s.waiters.filter (· ≠ i) }
    else none
  | .message m =>
    match s.event with
    | .idle => some { s with event := .test m, messages := s.messages ++ [m] }
    | _ => none
  | .event k => eventStep s k
  | .disconnect =>
    match s.event with
    | .idle =>
      some { s with
        event := .disconnected
        socket := false
        call := fun i => { s.call i with cut := (s.call i).pc.inFlight } }
    | _ => none
  | .delete =>
    match s.event with
    | .disconnected => some { s with event := .deleted, deleted := true }
    | _ => none

/-- After the login: no call has begun. -/
def State.init (kind : ι → Kind) (actionid : UInt32) : State ι where
  actionid := actionid
  call := fun i => { kind := kind i }

section Init

variable {ι : Type} (kind : ι → Kind) (n : UInt32)

@[simp] theorem State.init_pc (i : ι) : ((init kind n).call i).pc = .start := rfl
@[simp] theorem State.init_out (i : ι) : ((init kind n).call i).out = none := rfl
@[simp] theorem State.init_cut (i : ι) : ((init kind n).call i).cut = false := rfl
@[simp] theorem State.init_completedBy (i : ι) : ((init kind n).call i).completedBy = none := rfl
@[simp] theorem State.init_mode (i : ι) : ((init kind n).call i).resp.mode = .none := rfl
@[simp] theorem State.init_socket : (init kind n).socket = true := rfl
@[simp] theorem State.init_deleted : (init kind n).deleted = false := rfl
@[simp] theorem State.init_event : (init kind n).event = .idle := rfl
@[simp] theorem State.init_pResp : (init kind n).pResp = none := rfl
@[simp] theorem State.init_log : (init kind n).log = [] := rfl

end Init

/-- A positive response with a one-digit number. -/
def answer (digit : UInt8) : List UInt8 :=
  textResponse ++ [58, 32] ++ textSuccess ++ [13, 10] ++ textActionID ++
    [58, 32, digit, 13, 10, 13, 10]

/-- `ami_sync` up to its wait. -/
def sendRun (i : ι) : List (Action ι) := List.replicate 13 (.call i)

/-- `ami_sync` from the end of its wait to its return. -/
def resumeRun (i : ι) : List (Action ι) := List.replicate 7 (.call i)

/-- `ami_event` fills a response and wakes the call. -/
def answerRun (m : List UInt8) : List (Action ι) := .message m :: List.replicate 17 (.event 0)

-- ════════════════════════════════════════════════════════════════════════
-- The tables
-- ════════════════════════════════════════════════════════════════════════

/-- The steps of a call that change nothing but the call itself. -/
inductive LocalStep (s : State ι) (c : Call) : Call → Prop
  | connected (hpc : c.pc = .start) (hsocket : s.socket = true) :
      LocalStep s c { c with pc := .typeTest }
  | unconnected (hpc : c.pc = .start) (hsocket : s.socket = false) :
      LocalStep s c { c with pc := .leaving, resp := { c.resp with result := -99 } }
  | typed (hpc : c.pc = .typeTest) : LocalStep s c { c with pc := .fmtTest }
  | refused (hpc : c.pc = .fmtTest) :
      LocalStep s c { c with pc := .leaving, resp := { c.resp with result := -98 } }
  | formatSync (hpc : c.pc = .fmtTest) (hsync : c.kind.sync = true) :
      LocalStep s c { c with pc := .sendPtr }
  | formatAsync (hpc : c.pc = .fmtTest) (hsync : c.kind.sync = false) :
      LocalStep s c { c with pc := .lockAmi }
  | pointSync (hpc : c.pc = .sendPtr) (hsync : c.kind.sync = true) :
      LocalStep s c { c with pc := .lockAmi }
  | pointAsync (hpc : c.pc = .sendPtr) (hsync : c.kind.sync = false) :
      LocalStep s c { c with pc := .print }
  | incLoad (hpc : c.pc = .incLoad) (n : UInt32) : LocalStep s c { c with pc := .incStore n }
  | setMode (hpc : c.pc = .setMode) :
      LocalStep s c { c with resp := { c.resp with mode := .request }, pc := .publish }
  | signaled (hpc : c.pc = .timeoutTest false) : LocalStep s c { c with pc := .decLoad }
  | timedOut (hpc : c.pc = .timeoutTest true) :
      LocalStep s c { c with resp := { c.resp with result := -8 }, pc := .decLoad }
  | decLoad (hpc : c.pc = .decLoad) (n : UInt32) : LocalStep s c { c with pc := .decStore n }

/-- The steps of the call `i`. -/
inductive CallStep (s : State ι) (i : ι) : State ι → Prop
  | null (hpc : (s.call i).pc.readsSocket = true) (hsocket : s.socket = false) :
      CallStep s i (s.crash i (.null i))
  | dangling (hpc : (s.call i).pc.usesManage = true) (hdeleted : s.deleted = true) :
      CallStep s i (s.crash i (.dangling i))
  | local (c : Call) (h : LocalStep s (s.call i) c) : CallStep s i (s.setCall i c)
  | lockSync (hpc : (s.call i).pc = .lockAmi) (hsync : (s.call i).kind.sync = true)
      (hfree : s.mutexAMI = none) : CallStep s i { s.goto i .incLoad with mutexAMI := some i }
  | lockAsync (hpc : (s.call i).pc = .lockAmi) (hsync : (s.call i).kind.sync = false)
      (hfree : s.mutexAMI = none) : CallStep s i { s.goto i .sendPtr with mutexAMI := some i }
  | incStore (n : UInt32) (hpc : (s.call i).pc = .incStore n) :
      CallStep s i { s.goto i .lockResp with respWaitcount := n }
  | lockResp (hpc : (s.call i).pc = .lockResp) (hfree : s.mutexResp = none) :
      CallStep s i { s.goto i .print with mutexResp := some (.call i) }
  | printSync (hpc : (s.call i).pc = .print) (hsync : (s.call i).kind.sync = true) :
      CallStep s i { s.setCall i { s.call i with id := s.actionid + 1, pc := .setMode } with
        actionid := s.actionid + 1 }
  | printAsync (hpc : (s.call i).pc = .print) (hsync : (s.call i).kind.sync = false) :
      CallStep s i { s.setCall i { s.call i with id := s.actionid + 1, pc := .write } with
        actionid := s.actionid + 1 }
  | publish (hpc : (s.call i).pc = .publish) :
      CallStep s i { s.goto i .write with pResp := some i }
  | writeSync (hpc : (s.call i).pc = .write) (hsync : (s.call i).kind.sync = true) :
      CallStep s i { s.goto i .wait with log := s.log ++ [.wrote i] }
  | writeAsync (hpc : (s.call i).pc = .write) (hsync : (s.call i).kind.sync = false) :
      CallStep s i { s.goto i .unlockAmi with log := s.log ++ [.wrote i] }
  | wait (hpc : (s.call i).pc = .wait) :
      CallStep s i { s.goto i .waiting with mutexResp := none, waiters := s.waiters ++ [i] }
  | relock (timedOut : Bool) (hpc : (s.call i).pc = .relock timedOut) (hfree : s.mutexResp = none) :
      CallStep s i { s.goto i (.timeoutTest timedOut) with mutexResp := some (.call i) }
  | decStore (n : UInt32) (hpc : (s.call i).pc = .decStore n) :
      CallStep s i { s.goto i .unlockResp with respWaitcount := n }
  | unlockResp (hpc : (s.call i).pc = .unlockResp) :
      CallStep s i { s.goto i .unlockAmi with mutexResp := none }
  | unlockAmi (hpc : (s.call i).pc = .unlockAmi) :
      CallStep s i { s.goto i .leaving with mutexAMI := none }
  | leave (hpc : (s.call i).pc = .leaving) :
      CallStep s i { s.setCall i { s.call i with pc := .returned, out := some (s.call i).resp } with
        log := s.log ++ [.returned i] }

theorem callMove_cases {s s' : State ι} {i : ι} (h : callMove s i = some s') : CallStep s i s' := by
  cases hpc : (s.call i).pc with
  | start =>
    simp only [callMove, hpc, Option.some.injEq] at h
    subst h
    cases hsocket : s.socket with
    | true => exact .local _ (.connected hpc hsocket)
    | false => exact .local _ (.unconnected hpc hsocket)
  | typeTest =>
    simp only [callMove, hpc, Option.some.injEq] at h
    exact h ▸ .local _ (.typed hpc)
  | fmtTest =>
    simp only [callMove, hpc, Option.some.injEq] at h
    subst h
    split
    · exact .local _ (.refused hpc)
    · cases hsync : (s.call i).kind.sync with
      | true => exact .local _ (.formatSync hpc hsync)
      | false => exact .local _ (.formatAsync hpc hsync)
  | sendPtr =>
    simp only [callMove, hpc, Option.some.injEq] at h
    subst h
    cases hsync : (s.call i).kind.sync with
    | true => exact .local _ (.pointSync hpc hsync)
    | false => exact .local _ (.pointAsync hpc hsync)
  | lockAmi =>
    simp only [callMove, hpc] at h
    split at h
    · next hfree =>
      obtain rfl := Option.some.inj h
      cases hsync : (s.call i).kind.sync with
      | true => exact .lockSync hpc hsync hfree
      | false => exact .lockAsync hpc hsync hfree
    · exact absurd h (by simp)
  | incLoad =>
    simp only [callMove, hpc, Option.some.injEq] at h
    exact h ▸ .local _ (.incLoad hpc _)
  | incStore n =>
    simp only [callMove, hpc, Option.some.injEq] at h
    exact h ▸ .incStore n hpc
  | lockResp =>
    simp only [callMove, hpc] at h
    split at h
    · next hfree =>
      obtain rfl := Option.some.inj h
      exact .lockResp hpc hfree
    · exact absurd h (by simp)
  | print =>
    simp only [callMove, hpc, Option.some.injEq] at h
    subst h
    cases hsync : (s.call i).kind.sync with
    | true => exact .printSync hpc hsync
    | false => exact .printAsync hpc hsync
  | setMode =>
    simp only [callMove, hpc, Option.some.injEq] at h
    exact h ▸ .local _ (.setMode hpc)
  | publish =>
    simp only [callMove, hpc, Option.some.injEq] at h
    exact h ▸ .publish hpc
  | write =>
    simp only [callMove, hpc, Option.some.injEq] at h
    subst h
    cases hsync : (s.call i).kind.sync with
    | true => exact .writeSync hpc hsync
    | false => exact .writeAsync hpc hsync
  | wait =>
    simp only [callMove, hpc, Option.some.injEq] at h
    exact h ▸ .wait hpc
  | waiting => simp [callMove, hpc] at h
  | relock timedOut =>
    simp only [callMove, hpc] at h
    split at h
    · next hfree =>
      obtain rfl := Option.some.inj h
      exact .relock timedOut hpc hfree
    · exact absurd h (by simp)
  | timeoutTest timedOut =>
    simp only [callMove, hpc, Option.some.injEq] at h
    subst h
    cases timedOut with
    | true => exact .local _ (.timedOut hpc)
    | false => exact .local _ (.signaled hpc)
  | decLoad =>
    simp only [callMove, hpc, Option.some.injEq] at h
    exact h ▸ .local _ (.decLoad hpc _)
  | decStore n =>
    simp only [callMove, hpc, Option.some.injEq] at h
    exact h ▸ .decStore n hpc
  | unlockResp =>
    simp only [callMove, hpc, Option.some.injEq] at h
    exact h ▸ .unlockResp hpc
  | unlockAmi =>
    simp only [callMove, hpc, Option.some.injEq] at h
    exact h ▸ .unlockAmi hpc
  | leaving =>
    simp only [callMove, hpc, Option.some.injEq] at h
    exact h ▸ .leave hpc
  | returned => simp [callMove, hpc] at h
  | crashed => simp [callMove, hpc] at h

theorem callStep_cases {s s' : State ι} {i : ι} (h : callStep s i = some s') : CallStep s i s' := by
  rw [callStep] at h
  split at h
  · next hnull =>
    obtain rfl := Option.some.inj h
    exact .null hnull.1 hnull.2
  · split at h
    · next hdangling =>
      obtain rfl := Option.some.inj h
      exact .dangling hdangling.1 hdangling.2
    · exact callMove_cases h

/-- The steps of `ami_event` that change nothing but its position. -/
inductive EventMove (s : State ι) : EventPc ι → EventPc ι → Prop
  | pending (m : List UInt8) : EventMove s (.test m) (.waitcount m)
  | other (m : List UInt8) : EventMove s (.test m) (.handler m)
  | awaited (m : List UInt8) : EventMove s (.waitcount m) (.pointer m)
  | unawaited (m : List UInt8) : EventMove s (.waitcount m) (.misuse m)
  | pointer (m : List UInt8) (p : ι) (hp : s.pResp = some p) : EventMove s (.pointer m) (.mode m p)
  | incLoad (m : List UInt8) (n : UInt32) : EventMove s (.incLoad m) (.incStore m n)
  | earlier (m : List UInt8) (p : ι) (id : UInt32) : EventMove s (.less m p id) (.decLoad m false)
  | less (m : List UInt8) (p : ι) (id : UInt32) (hid : ¬ id < s.actionid) :
      EventMove s (.less m p id) (.greater m p id)
  | later (m : List UInt8) (p : ι) (id : UInt32) : EventMove s (.greater m p id) (.fill m p true)
  | equal (m : List UInt8) (p : ι) (id : UInt32) (hid : ¬ s.actionid < id) :
      EventMove s (.greater m p id) (.fill m p false)
  | decLoad (m : List UInt8) (done : Bool) (n : UInt32) :
      EventMove s (.decLoad m done) (.decStore m done n)
  | handled (m : List UInt8) : EventMove s (.handler m) .idle

/-- The steps of `ami_event`. -/
inductive EventStep (s : State ι) : State ι → Prop
  | move (e : EventPc ι) (h : EventMove s s.event e) : EventStep s { s with event := e }
  | mode (m : List UInt8) (p : ι) (e : EventPc ι) (hpc : s.event = .mode m p)
      (he : e = .incLoad m ∨ e = .misuse m) :
      EventStep s { s with event := e, log := s.log ++ [.access p] }
  | misuse (m : List UInt8) (hpc : s.event = .misuse m) :
      EventStep s { s with event := .handler m, pResp := none }
  | incStore (m : List UInt8) (n : UInt32) (hpc : s.event = .incStore m n) :
      EventStep s { s with event := .lock m, respWaitcount := n }
  | lock (m : List UInt8) (hpc : s.event = .lock m) (hfree : s.mutexResp = none) :
      EventStep s { s with event := .take m, mutexResp := some .event }
  | take (m : List UInt8) (p : ι) (resp : AmiResponse) (id : UInt32) (hpc : s.event = .take m)
      (hp : s.pResp = some p) (hresp : (s.call p).resp.takeMessage m = .ok resp)
      (hid : resp.responses.actionId = .ok id) :
      EventStep s { s.setCall p { s.call p with resp } with
        event := .less m p id
        log := s.log ++ [.access p, .took p s.current] }
  | fill (m : List UInt8) (p : ι) (past : Bool) (hpc : s.event = .fill m p past) :
      EventStep s { s.setCall p { s.call p with
          resp := { (s.call p).resp with mode := .response } } with
        event := .result m p past
        log := s.log ++ [.access p] }
  | refuse (m : List UInt8) (p : ι) (hpc : s.event = .result m p true) :
      EventStep s { s.setCall p { s.call p with
          resp := (s.call p).resp.refuse
          completedBy := some s.current } with
        event := .clear m p
        log := s.log ++ [.access p] }
  | accept (m : List UInt8) (p : ι) (resp : AmiResponse) (hpc : s.event = .result m p false)
      (hresp : (s.call p).resp.accept = .ok resp) :
      EventStep s { s.setCall p { s.call p with resp, completedBy := some s.current } with
        event := .clear m p
        log := s.log ++ [.access p] }
  | clear (m : List UInt8) (p : ι) (hpc : s.event = .clear m p) :
      EventStep s { s with event := .signal m, pResp := none }
  | wake (m : List UInt8) (j : ι) (hpc : s.event = .signal m) (hj : j ∈ s.waiters) :
      EventStep s { s.goto j (.relock false) with
        event := .decLoad m true
        waiters := s.waiters.filter (· ≠ j) }
  | noWaiter (m : List UInt8) (hpc : s.event = .signal m) :
      EventStep s { s with event := .decLoad m true }
  | decStore (m : List UInt8) (done : Bool) (n : UInt32) (hpc : s.event = .decStore m done n) :
      EventStep s { s with event := .unlock m done, respWaitcount := n }
  | unlock (m : List UInt8) (done : Bool) (e : EventPc ι) (hpc : s.event = .unlock m done)
      (he : e = .idle ∨ e = .handler m) : EventStep s { s with event := e, mutexResp := none }

theorem eventStep_cases {s s' : State ι} {k : Nat} (h : eventStep s k = some s') :
    EventStep s s' := by
  cases hpc : s.event with
  | idle => simp [eventStep, hpc] at h
  | test m =>
    simp only [eventStep, hpc, Option.some.injEq] at h
    subst h
    split
    · exact .move _ (hpc ▸ .pending m)
    · exact .move _ (hpc ▸ .other m)
  | waitcount m =>
    simp only [eventStep, hpc, Option.some.injEq] at h
    subst h
    split
    · exact .move _ (hpc ▸ .awaited m)
    · exact .move _ (hpc ▸ .unawaited m)
  | pointer m =>
    simp only [eventStep, hpc, Option.map_eq_some_iff] at h
    obtain ⟨p, hp, rfl⟩ := h
    exact .move _ (hpc ▸ .pointer m p hp)
  | mode m p =>
    simp only [eventStep, hpc, Option.some.injEq] at h
    subst h
    split
    · exact .mode m p _ hpc (.inl rfl)
    · exact .mode m p _ hpc (.inr rfl)
  | misuse m =>
    simp only [eventStep, hpc, Option.some.injEq] at h
    exact h ▸ .misuse m hpc
  | incLoad m =>
    simp only [eventStep, hpc, Option.some.injEq] at h
    exact h ▸ .move _ (hpc ▸ .incLoad m _)
  | incStore m n =>
    simp only [eventStep, hpc, Option.some.injEq] at h
    exact h ▸ .incStore m n hpc
  | lock m =>
    simp only [eventStep, hpc] at h
    split at h
    · next hfree =>
      obtain rfl := Option.some.inj h
      exact .lock m hpc hfree
    · exact absurd h (by simp)
  | take m =>
    simp only [eventStep, hpc, Option.bind_eq_some_iff] at h
    obtain ⟨p, hp, h⟩ := h
    split at h
    · exact absurd h (by simp)
    · next resp hresp =>
      split at h
      · exact absurd h (by simp)
      · next id hid =>
        obtain rfl := Option.some.inj h
        exact .take m p resp id hpc hp hresp hid
  | less m p id =>
    simp only [eventStep, hpc, Option.some.injEq] at h
    subst h
    split
    · exact .move _ (hpc ▸ .earlier m p id)
    · next hid => exact .move _ (hpc ▸ .less m p id hid)
  | greater m p id =>
    simp only [eventStep, hpc, Option.some.injEq] at h
    subst h
    by_cases hid : s.actionid < id
    · rw [decide_eq_true hid]
      exact .move _ (hpc ▸ .later m p id)
    · rw [decide_eq_false hid]
      exact .move _ (hpc ▸ .equal m p id hid)
  | fill m p past =>
    simp only [eventStep, hpc, Option.some.injEq] at h
    exact h ▸ .fill m p past hpc
  | result m p past =>
    simp only [eventStep, hpc] at h
    split at h
    · exact absurd h (by simp)
    · next resp hresp =>
      obtain rfl := Option.some.inj h
      cases past with
      | true =>
        obtain rfl := Except.ok.inj hresp
        exact .refuse m p hpc
      | false => exact .accept m p resp hpc hresp
  | clear m p =>
    simp only [eventStep, hpc, Option.some.injEq] at h
    exact h ▸ .clear m p hpc
  | signal m =>
    simp only [eventStep, hpc] at h
    split at h
    · next j hj =>
      obtain rfl := Option.some.inj h
      exact .wake m j hpc (List.mem_of_getElem? hj)
    · split at h
      · obtain rfl := Option.some.inj h
        exact .noWaiter m hpc
      · exact absurd h (by simp)
  | decLoad m done =>
    simp only [eventStep, hpc, Option.some.injEq] at h
    exact h ▸ .move _ (hpc ▸ .decLoad m done _)
  | decStore m done n =>
    simp only [eventStep, hpc, Option.some.injEq] at h
    exact h ▸ .decStore m done n hpc
  | unlock m done =>
    simp only [eventStep, hpc, Option.some.injEq] at h
    subst h
    cases done with
    | true => exact .unlock m true _ hpc (.inl rfl)
    | false => exact .unlock m false _ hpc (.inr rfl)
  | handler m =>
    simp only [eventStep, hpc, Option.some.injEq] at h
    exact h ▸ .move _ (hpc ▸ .handled m)
  | disconnected => simp [eventStep, hpc] at h
  | deleted => simp [eventStep, hpc] at h

/-- The steps of the connection. -/
inductive Step (s : State ι) : Action ι → State ι → Prop
  | call (i : ι) (s' : State ι) (h : CallStep s i s') : Step s (.call i) s'
  | timeout (i : ι) (hpc : (s.call i).pc = .waiting) :
      Step s (.timeout i) { s.goto i (.relock true) with waiters := s.waiters.filter (· ≠ i) }
  | message (m : List UInt8) (hpc : s.event = .idle) :
      Step s (.message m) { s with event := .test m, messages := s.messages ++ [m] }
  | event (k : Nat) (s' : State ι) (h : EventStep s s') : Step s (.event k) s'
  | disconnect (hpc : s.event = .idle) :
      Step s .disconnect { s with
        event := .disconnected
        socket := false
        call := fun i => { s.call i with cut := (s.call i).pc.inFlight } }
  | delete (hpc : s.event = .disconnected) :
      Step s .delete { s with event := .deleted, deleted := true }

theorem step_cases {s s' : State ι} {a : Action ι} (h : step s a = some s') : Step s a s' := by
  cases a with
  | call i => exact .call i s' (callStep_cases h)
  | event k => exact .event k s' (eventStep_cases h)
  | timeout i =>
    simp only [step] at h
    split at h
    · next hpc => exact Option.some.inj h ▸ .timeout i hpc
    · exact absurd h (by simp)
  | message m =>
    simp only [step] at h
    split at h
    · next hpc => exact Option.some.inj h ▸ .message m hpc
    · exact absurd h (by simp)
  | disconnect =>
    simp only [step] at h
    split at h
    · next hpc => exact Option.some.inj h ▸ .disconnect hpc
    · exact absurd h (by simp)
  | delete =>
    simp only [step] at h
    split at h
    · next hpc => exact Option.some.inj h ▸ .delete hpc
    · exact absurd h (by simp)

end Tst.Ami
