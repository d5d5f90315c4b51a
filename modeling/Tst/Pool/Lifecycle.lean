import Mathlib.Algebra.Order.Group.Multiset
import Mathlib.Data.Finset.Card
import Tst.Lib.Execution
import Tst.Pool.State

/-!
# The life of a pool object

`create()` and `destroy()`, called any number of times on one `tstpool`, with the connections that
come and go between them. `destroy()` closes the listening socket and what is in `m_connect`, and
nothing closes `m_epfd`.

## Main definitions

- `tcpCreate` — `tcp_create()`
- `Object.create`, `Object.destroy` — the functions, with what `tst_main` does to the object
- `Ledger` — whose the open descriptors are

## Main results

- `tcpCreate_failed` — a descriptor that `tcp_create()` does not return it has closed
- `lifecycle_ledger` — the descriptors that are open after any number of calls
-/

namespace Tst.Pool

open Execution

-- ════════════════════════════════════════════════════════════════════════
-- The listening socket
-- ════════════════════════════════════════════════════════════════════════

/-- What `bind()` answers: success, `EINVAL`, `EADDRINUSE` or another error. -/
inductive Bound
  | ok | einval | inUse | failed
  deriving DecidableEq

/-- What the system answers to `tcp_create()`: the descriptor that `socket()` returns, whether
`fcntl()` and `listen()` succeed, and the answers to `bind()`, by `retry`. -/
structure Listening where
  socket : Option Fd
  nonBlock : Bool
  bind : Nat → Bound
  listen : Bool

/-- `MAX_RETRY`. -/
def maxRetry : Nat := 10

/-- The loop around `bind()`, with the rounds that are left: `retry` behind it. -/
def bindLoop (bind : Nat → Bound) : (retry left : Nat) → Nat
  | retry, 0 => retry
  | retry, left + 1 =>
    match bind retry with
    -- `EINVAL` is taken for a socket that is bound already
    | .ok | .einval => retry
    | .inUse | .failed => bindLoop bind (retry + 1) left

/-- `tcp_create()`: what it returns, and the open descriptors. -/
def tcpCreate (opened : Finset Fd) (l : Listening) : Int × Finset Fd :=
  match l.socket with
  | none => (-1, opened)
  | some fd =>
    let opened := insert fd opened
    if !l.nonBlock then (-7, opened.erase fd)
    else if maxRetry ≤ bindLoop l.bind 0 maxRetry then (-8, opened.erase fd)
    else if !l.listen then (-9, opened.erase fd)
    else (fd, opened)

/-- The descriptor that is obtained: `bind()` has succeeded in one of ten rounds, or has answered
`EINVAL`, and no other call has failed. -/
def Listening.obtained (l : Listening) : Option Fd :=
  if l.nonBlock && l.listen && (List.range maxRetry).any
      fun retry => l.bind retry = .ok || l.bind retry = .einval then l.socket
  else none

section Listening

variable {l : Listening} {opened : Finset Fd} {fd : Fd}

/-- The loop ends before its last round exactly where a round succeeds. -/
theorem bindLoop_lt (bind : Nat → Bound) (retry left : Nat) :
    bindLoop bind retry left < retry + left ↔
      ∃ i < left, bind (retry + i) = .ok ∨ bind (retry + i) = .einval := by
  induction left generalizing retry with
  | zero => simp [bindLoop]
  | succ left ih =>
    have hnext := ih (retry + 1)
    by_cases hgood : bind retry = .ok ∨ bind retry = .einval
    · have hstop : bindLoop bind retry (left + 1) = retry := by
        rcases hgood with h | h <;> rw [bindLoop, h]
      rw [hstop]
      exact ⟨fun _ => ⟨0, by omega, hgood⟩, fun _ => by omega⟩
    · have hgo : bindLoop bind retry (left + 1) = bindLoop bind (retry + 1) left := by
        rw [bindLoop]
        split
        · next h => exact absurd (.inl h) hgood
        · next h => exact absurd (.inr h) hgood
        · rfl
        · rfl
      rw [hgo, show retry + (left + 1) = retry + 1 + left by omega, hnext]
      constructor
      · rintro ⟨i, hi, h⟩
        exact ⟨i + 1, by omega, by rwa [← Nat.add_assoc, Nat.add_right_comm]⟩
      · rintro ⟨i, hi, h⟩
        cases i with
        | zero => exact absurd h hgood
        | succ i => exact ⟨i, by omega, by rwa [Nat.add_right_comm, Nat.add_assoc]⟩

theorem bound_iff (l : Listening) :
    bindLoop l.bind 0 maxRetry < maxRetry ↔
      ((List.range maxRetry).any fun retry => l.bind retry = .ok || l.bind retry = .einval) =
        true := by
  have h := bindLoop_lt l.bind 0 maxRetry
  simp only [Nat.zero_add] at h
  simp [h]

/-- What is obtained is returned and open. -/
theorem tcpCreate_obtained (h : l.obtained = some fd) :
    tcpCreate opened l = ((fd : Int), insert fd opened) := by
  rw [Listening.obtained] at h
  split at h
  · next hok =>
    simp only [Bool.and_eq_true] at hok
    obtain ⟨⟨hnonBlock, hlisten⟩, hbound⟩ := hok
    have hlt := (bound_iff l).mpr hbound
    simp [tcpCreate, h, hnonBlock, hlisten, Nat.not_le.mpr hlt]
  · exact absurd h (by simp)

/-- Where nothing is obtained, nothing stays open: what `tcp_create()` does not return it has
closed. -/
theorem tcpCreate_failed (hfresh : ∀ fd ∈ l.socket, fd ∉ opened) (h : l.obtained = none) :
    (tcpCreate opened l).1 < 0 ∧ (tcpCreate opened l).2 = opened := by
  cases hsocket : l.socket with
  | none => simp [tcpCreate, hsocket]
  | some fd =>
    have herase : (insert fd opened).erase fd = opened := Finset.erase_insert (hfresh fd hsocket)
    have hnot :
        ¬ (l.nonBlock = true ∧ l.listen = true ∧ bindLoop l.bind 0 maxRetry < maxRetry) := by
      rintro ⟨hnonBlock, hlisten, hlt⟩
      rw [Listening.obtained, hnonBlock, hlisten, (bound_iff l).mp hlt, hsocket] at h
      exact absurd h (by simp)
    by_cases hnonBlock : l.nonBlock = true
    · by_cases hlt : bindLoop l.bind 0 maxRetry < maxRetry
      · have hlisten : l.listen = false :=
          Bool.eq_false_iff.mpr fun hlisten => hnot ⟨hnonBlock, hlisten, hlt⟩
        simp [tcpCreate, hsocket, hnonBlock, hlisten, Nat.not_le.mpr hlt, herase]
      · simp [tcpCreate, hsocket, hnonBlock, Nat.not_lt.mp hlt, herase]
    · simp [tcpCreate, hsocket, hnonBlock, herase]

theorem obtained_socket (h : l.obtained = some fd) : l.socket = some fd := by
  rw [Listening.obtained] at h
  split at h
  · exact h
  · exact absurd h (by simp)

end Listening

-- ════════════════════════════════════════════════════════════════════════
-- The object
-- ════════════════════════════════════════════════════════════════════════

/-- The fields of `tstpool` that `create()` and `destroy()` set, and the open descriptors. Two are
history: `epolls` is what `epoll_create()` has returned, and `left` what is open and of which the
object does not hold the number. -/
structure Object where
  sockmain : Int := 0
  /-- `m_socktype == sock_listen` -/
  listening : Bool := false
  mainThread : Bool := false
  mainRun : Bool := false
  /-- the descriptors in `m_connect` -/
  connect : Finset Fd := ∅
  /-- `m_events` and `m_workers` are allocated -/
  events : Bool := false
  workers : Bool := false
  opened : Finset Fd
  epolls : Finset Fd := ∅
  left : Finset Fd := ∅

namespace Object

/-- `tstpool()`. -/
def new (opened : Finset Fd) : Object := { opened }

/-- The listening socket of which the object holds the number. -/
def mainSocket (o : Object) : Finset Fd :=
  if o.listening && decide (0 < o.sockmain) then {o.sockmain.toNat} else ∅

/-- `m_sockmain = sd`. -/
def setMain (o : Object) (sd : Int) : Object :=
  { o with sockmain := sd, left := o.left ∪ o.mainSocket }

/-- `create()` from `epoll_create()` on. Without a main socket `tst_main` clears `m_main_run` and
ends, and its end frees `m_workers`; `noticed` is whether `create()` comes to its last test only
behind that. -/
def start (o : Object) (epoll : Option Fd) (noticed : Bool) : Object × Int :=
  let o := { o with
    opened := epoll.elim o.opened (insert · o.opened)
    epolls := epoll.elim o.epolls (insert · o.epolls)
    mainThread := true }
  if 0 < o.sockmain then ({ o with mainRun := true, events := true, workers := true }, 1)
  else if noticed then ({ o with mainRun := false, events := false, workers := false }, 0)
  else ({ o with mainRun := false, events := true, workers := false }, 1)

/-- `create()`. A descriptor 0 is taken for a failure, and stays open. -/
def create (o : Object) (port : UInt16) (l : Listening) (epoll : Option Fd) (noticed : Bool) :
    Object × Int :=
  if 0 < port then
    let (sd, opened) := tcpCreate o.opened l
    let o := { o.setMain sd with opened }
    if sd < 1 then ({ o with left := if sd = 0 then insert 0 o.left else o.left }, -1)
    else { o with listening := true }.start epoll noticed
  else o.start epoll noticed

/-- `destroy()`, which waits for the end of `tst_main`. -/
def destroy (o : Object) : Object × Int :=
  if !o.mainThread || !o.mainRun then (o, 0)
  else
    let o := { o with mainRun := false, mainThread := false, workers := false }
    let o := if o.listening && decide (-1 < o.sockmain) then
        { o with opened := o.opened.erase o.sockmain.toNat, sockmain := -1 }
      else o
    ({ o with opened := o.opened \ o.connect, connect := ∅, events := false }, 1)

/-- `tst_main` clears `m_main_run` itself, and ends. -/
def stop (o : Object) : Object := { o with mainRun := false, workers := false }

/-- `closesocket()`. -/
def closesocket (o : Object) (sd : Fd) : Object :=
  { o with connect := o.connect.erase sd, opened := o.opened.erase sd }

end Object

/-- The calls on the object, and what happens to its sockets: the user adds a socket that he has
connected, as the main socket or not; `tst_main` accepts a connection, closes one that has been
lost, or finds that the listening socket is hung up; a worker or the program closes a
connection. -/
inductive LifeAction
  | create (port : UInt16) (l : Listening) (epoll : Option Fd) (noticed : Bool)
  | dial (sd : Fd)
  | add (sd : Fd)
  | accept (sd : Fd)
  | lost (sd : Fd)
  | hangup
  | close (sd : Fd)
  | destroy

/-- One step. A descriptor that the system returns is not open, and the user does not add descriptor
0. A pool that runs is not created again, and its main socket is not replaced. -/
def Object.step (o : Object) : LifeAction → Option Object
  | .create port l epoll noticed =>
    if o.mainRun = false ∧ (∀ fd ∈ l.socket, fd ∉ o.opened) ∧
        ∀ fd ∈ epoll, fd ∉ o.opened ∧ l.socket ≠ some fd then
      some (o.create port l epoll noticed).1
    else none
  | .dial sd =>
    if o.mainRun = false ∧ 0 < sd ∧ sd ∉ o.opened then
      some { o.setMain sd with
        listening := false
        connect := insert sd o.connect
        opened := insert sd o.opened }
    else none
  | .add sd =>
    if 0 < sd ∧ sd ∉ o.opened then
      some { o with connect := insert sd o.connect, opened := insert sd o.opened }
    else none
  | .accept sd =>
    if o.mainRun = true ∧ o.listening = true ∧ sd ∉ o.opened then
      if 0 < sd then
        some { o with connect := insert sd o.connect, opened := insert sd o.opened }
      else some { o with left := insert sd o.left, opened := insert sd o.opened }
    else none
  | .lost sd =>
    if o.mainRun = true ∧ sd ∈ o.connect then
      if o.sockmain = sd then some (o.closesocket sd).stop else some (o.closesocket sd)
    else none
  | .hangup => if o.mainRun = true ∧ o.listening = true then some o.stop else none
  | .close sd => if sd ∈ o.connect then some (o.closesocket sd) else none
  | .destroy => some o.destroy.1

/-- Each open descriptor belongs to the program, is one of `epoll_create()`, a connection, the
listening socket or one that the object has lost, and only one of these. -/
structure Ledger (base : Finset Fd) (o : Object) : Prop where
  opened : o.opened.val =
    base.val + o.epolls.val + o.connect.val + o.mainSocket.val + o.left.val
  thread : o.mainRun = true → o.mainThread = true
  running : o.mainRun = true → 0 < o.sockmain
  workers : o.workers = o.mainRun

section Steps

variable {base : Finset Fd} {o o' : Object} {epoll : Option Fd} {sd : Fd}

theorem Ledger.new (base : Finset Fd) : Ledger base (.new base) where
  opened := by simp [Object.new, Object.mainSocket]
  thread := by simp [Object.new]
  running := by simp [Object.new]
  workers := rfl

theorem Ledger.mem (h : Ledger base o) :
    sd ∈ o.opened ↔ sd ∈ base ∨ sd ∈ o.epolls ∨ sd ∈ o.connect ∨ sd ∈ o.mainSocket ∨
      sd ∈ o.left := by
  rw [← Finset.mem_val, h.opened]
  simp [or_assoc]

theorem val_union {s t : Finset Fd} (h : Disjoint s t) : (s ∪ t).val = s.val + t.val := by
  rw [← Finset.disjUnion_eq_union s t h]
  rfl

/-- The books when the object holds the number of its listening socket no longer. -/
theorem Ledger.given_up (h : Ledger base o) :
    o.opened.val = base.val + o.epolls.val + o.connect.val + (o.left ∪ o.mainSocket).val := by
  have hnodup := h.opened ▸ o.opened.nodup
  rw [Multiset.add_assoc _ o.mainSocket.val] at hnodup
  have hdisjoint : Disjoint o.left o.mainSocket :=
    Finset.disjoint_val.mp (Multiset.nodup_add.mp (Multiset.nodup_add.mp hnodup).2.1).2.2.symm
  rw [h.opened, val_union hdisjoint, Multiset.add_assoc, Multiset.add_comm o.mainSocket.val]

theorem Object.mainSocket_nonpos (h : o.sockmain ≤ 0) : o.mainSocket = ∅ := by
  rw [mainSocket, if_neg]
  simp [Int.not_lt.mpr h]

/-- Of a pool that does not run only the descriptors are to be accounted for. -/
theorem Ledger.of_idle (hidle : o.mainRun = false) (hworkers : o.workers = false)
    (hopened : o.opened.val =
      base.val + o.epolls.val + o.connect.val + o.mainSocket.val + o.left.val) :
    Ledger base o where
  opened := hopened
  thread := fun hrun => absurd hrun (by simp [hidle])
  running := fun hrun => absurd hrun (by simp [hidle])
  workers := hworkers.trans hidle.symm

/-- From `epoll_create()` on. -/
theorem Ledger.start
    (hopened : o.opened.val =
      base.val + o.epolls.val + o.connect.val + o.mainSocket.val + o.left.val)
    (hepoll : ∀ fd ∈ epoll, fd ∉ o.opened) (noticed : Bool) :
    Ledger base (o.start epoll noticed).1 := by
  have hsub : ∀ fd ∈ o.epolls, fd ∈ o.opened := by
    intro fd hfd
    rw [← Finset.mem_val, hopened]
    simp [hfd]
  have hadd : (epoll.elim o.opened (insert · o.opened)).val =
      base.val + (epoll.elim o.epolls (insert · o.epolls)).val + o.connect.val +
        o.mainSocket.val + o.left.val := by
    cases epoll with
    | none => exact hopened
    | some fd =>
      have hfresh := hepoll fd rfl
      rw [Option.elim_some, Option.elim_some, Finset.insert_val_of_notMem hfresh,
        Finset.insert_val_of_notMem fun h => hfresh (hsub fd h), hopened, Multiset.add_cons,
        Multiset.cons_add, Multiset.cons_add, Multiset.cons_add]
  rw [Object.start]
  dsimp only
  split
  · next hpos =>
    exact {
      opened := hadd
      thread := fun _ => rfl
      running := fun _ => hpos
      workers := rfl }
  · split
    · exact .of_idle rfl rfl hadd
    · exact .of_idle rfl rfl hadd

/-- A call that fails leaves the new descriptor open only if that is descriptor 0. -/
theorem Ledger.create {l : Listening} (h : Ledger base o)
    (hidle : o.mainRun = false) (hsocket : ∀ fd ∈ l.socket, fd ∉ o.opened)
    (hepoll : ∀ fd ∈ epoll, fd ∉ o.opened ∧ l.socket ≠ some fd) (port : UInt16)
    (noticed : Bool) : Ledger base (o.create port l epoll noticed).1 := by
  have hbooks := h.given_up
  have hworkers : o.workers = false := h.workers.trans hidle
  rw [Object.create]
  split
  · cases hobtained : l.obtained with
    | none =>
      obtain ⟨hneg, hsame⟩ := tcpCreate_failed hsocket hobtained
      have hlt : (tcpCreate o.opened l).1 < 1 := by omega
      have hne : (tcpCreate o.opened l).1 ≠ 0 := by omega
      dsimp only
      rw [if_pos hlt, if_neg hne, hsame]
      refine .of_idle hidle hworkers ?_
      rw [Object.mainSocket_nonpos (by exact hneg.le), Finset.empty_val, Multiset.add_zero]
      exact hbooks
    | some fd =>
      have hfresh := hsocket fd (obtained_socket hobtained)
      have hinsert : (insert fd o.opened).val =
          fd ::ₘ (base.val + o.epolls.val + o.connect.val + (o.left ∪ o.mainSocket).val) := by
        rw [Finset.insert_val_of_notMem hfresh, hbooks]
      rw [tcpCreate_obtained hobtained]
      dsimp only
      by_cases hzero : fd = 0
      · subst hzero
        have hleft : 0 ∉ o.left ∪ o.mainSocket := by
          intro hmem
          rcases Finset.mem_union.mp hmem with hmem | hmem
          · exact hfresh (h.mem.mpr (.inr (.inr (.inr (.inr hmem)))))
          · exact hfresh (h.mem.mpr (.inr (.inr (.inr (.inl hmem)))))
        rw [if_pos (by decide), if_pos Nat.cast_zero]
        refine .of_idle hidle hworkers ?_
        rw [Object.mainSocket_nonpos (by exact Int.le_refl _), Finset.empty_val,
          Multiset.add_zero]
        dsimp only [Object.setMain]
        rw [hinsert, Finset.insert_val_of_notMem hleft, Multiset.add_cons]
      · have hpos : 0 < fd := Nat.pos_of_ne_zero hzero
        have hnot : ¬ (fd : Int) < 1 := by exact_mod_cast Nat.not_lt.mpr hpos
        rw [if_neg hnot]
        refine Ledger.start ?_ ?_ noticed
        · have hmain : ({ o.setMain fd with
              opened := insert fd o.opened, listening := true } : Object).mainSocket = {fd} := by
            simp [Object.mainSocket, Object.setMain, hpos]
          rw [hmain]
          dsimp only [Object.setMain]
          rw [hinsert, Finset.singleton_val, ← Multiset.cons_add, ← Multiset.singleton_add,
            Multiset.add_comm {fd}]
        · intro e he hmem
          obtain ⟨hnew, hother⟩ := hepoll e he
          rcases Finset.mem_insert.mp hmem with rfl | hmem
          · exact hother (obtained_socket hobtained)
          · exact hnew hmem
  · exact Ledger.start h.opened (fun fd hfd => (hepoll fd hfd).1) noticed

/-- `destroy()` closes the connections and the listening socket, each once. -/
theorem Ledger.destroy_opened (h : Ledger base o) (hrun : o.mainRun = true) :
    o.destroy.2 = 1 ∧ o.destroy.1.opened.val = base.val + o.epolls.val + o.left.val ∧
      o.destroy.1.connect = ∅ ∧ o.destroy.1.events = false ∧ o.destroy.1.workers = false := by
  have hpos := h.running hrun
  have hopened := h.opened
  have hmove : base.val + o.epolls.val + o.connect.val + o.left.val =
      base.val + o.epolls.val + o.left.val + o.connect.val := by
    rw [Multiset.add_assoc, Multiset.add_comm o.connect.val, ← Multiset.add_assoc]
  rw [Object.destroy, if_neg (by simp [h.thread hrun, hrun])]
  cases hlistening : o.listening with
  | true =>
    have hvalid : -1 < o.sockmain := by omega
    have hmain : o.mainSocket = {o.sockmain.toNat} := by
      simp [Object.mainSocket, hlistening, hpos]
    rw [hmain, Finset.singleton_val, Multiset.add_comm _ {o.sockmain.toNat},
      Multiset.singleton_add, Multiset.cons_add, hmove] at hopened
    simp [hvalid, hopened]
  | false =>
    have hmain : o.mainSocket = ∅ := by simp [Object.mainSocket, hlistening]
    rw [hmain, Finset.empty_val, Multiset.add_zero, hmove] at hopened
    simp [hopened]

theorem Object.destroy_idle (h : o.mainRun = false) : o.destroy = (o, 0) := by
  simp [destroy, h]

/-- What `destroy()` does not touch, and the listening socket that is gone. -/
theorem Ledger.destroy_same (h : Ledger base o) (hrun : o.mainRun = true) :
    o.destroy.1.epolls = o.epolls ∧ o.destroy.1.left = o.left ∧ o.destroy.1.mainRun = false ∧
      o.destroy.1.mainSocket = ∅ := by
  have hvalid : -1 < o.sockmain := by
    have hpos := h.running hrun
    omega
  cases hlistening : o.listening with
  | true => simp [Object.destroy, Object.mainSocket, h.thread hrun, hrun, hlistening, hvalid]
  | false => simp [Object.destroy, Object.mainSocket, h.thread hrun, hrun, hlistening]

theorem Ledger.destroy (h : Ledger base o) : Ledger base o.destroy.1 := by
  cases hrun : o.mainRun with
  | false =>
    rw [Object.destroy_idle hrun]
    exact h
  | true =>
    obtain ⟨-, hopened, hconnect, -, hworkers⟩ := h.destroy_opened hrun
    obtain ⟨hepolls, hleft, hidle, hmain⟩ := h.destroy_same hrun
    exact .of_idle hidle hworkers (by simp [hmain, hconnect, hepolls, hleft, hopened])

/-- A new connection. -/
theorem Ledger.opens (h : Ledger base o) (hfresh : sd ∉ o.opened) :
    (insert sd o.opened).val = base.val + o.epolls.val + (insert sd o.connect).val +
      o.mainSocket.val + o.left.val := by
  have hnew : sd ∉ o.connect := fun hmem => hfresh (h.mem.mpr (.inr (.inr (.inl hmem))))
  rw [Finset.insert_val_of_notMem hfresh, Finset.insert_val_of_notMem hnew, h.opened,
    Multiset.add_cons, Multiset.cons_add, Multiset.cons_add]

/-- `closesocket()` closes one connection. -/
theorem Ledger.closes (h : Ledger base o) (hlisted : sd ∈ o.connect) :
    Ledger base (o.closesocket sd) where
  opened := by
    have hcons := Multiset.cons_erase (Finset.mem_val.mpr hlisted)
    dsimp only [Object.closesocket]
    rw [Finset.erase_val, Finset.erase_val, h.opened, ← hcons, Multiset.add_cons,
      Multiset.cons_add, Multiset.cons_add, Multiset.erase_cons_head, Multiset.erase_cons_head]
    rfl
  thread := h.thread
  running := h.running
  workers := h.workers

theorem Ledger.stop (h : Ledger base o) : Ledger base o.stop := .of_idle rfl rfl h.opened

/-- Each step keeps the books. -/
theorem Ledger.step {a : LifeAction} (h : Ledger base o) (hstep : o.step a = some o') :
    Ledger base o' := by
  cases a with
  | create port l epoll noticed =>
    obtain ⟨⟨hidle, hsocket, hepoll⟩, hsome⟩ := Option.ite_none_right_eq_some.mp hstep
    obtain rfl := Option.some.inj hsome
    exact h.create hidle hsocket hepoll port noticed
  | dial sd =>
    obtain ⟨⟨hidle, -, hfresh⟩, hsome⟩ := Option.ite_none_right_eq_some.mp hstep
    obtain rfl := Option.some.inj hsome
    have hnew : sd ∉ o.connect := fun hmem => hfresh (h.mem.mpr (.inr (.inr (.inl hmem))))
    refine .of_idle hidle (h.workers.trans hidle) ?_
    simp [Object.mainSocket, Object.setMain, Finset.insert_val_of_notMem hfresh,
      Finset.insert_val_of_notMem hnew, h.given_up]
  | add sd =>
    obtain ⟨⟨-, hfresh⟩, hsome⟩ := Option.ite_none_right_eq_some.mp hstep
    obtain rfl := Option.some.inj hsome
    exact ⟨h.opens hfresh, h.thread, h.running, h.workers⟩
  | accept sd =>
    obtain ⟨⟨-, -, hfresh⟩, hsome⟩ := Option.ite_none_right_eq_some.mp hstep
    split at hsome
    · obtain rfl := Option.some.inj hsome
      exact ⟨h.opens hfresh, h.thread, h.running, h.workers⟩
    · obtain rfl := Option.some.inj hsome
      have hnew : sd ∉ o.left :=
        fun hmem => hfresh (h.mem.mpr (.inr (.inr (.inr (.inr hmem)))))
      refine ⟨?_, h.thread, h.running, h.workers⟩
      dsimp only
      rw [Finset.insert_val_of_notMem hfresh, Finset.insert_val_of_notMem hnew, Multiset.add_cons,
        h.opened]
      rfl
  | lost sd =>
    obtain ⟨⟨-, hlisted⟩, hsome⟩ := Option.ite_none_right_eq_some.mp hstep
    split at hsome
    · obtain rfl := Option.some.inj hsome
      exact (h.closes hlisted).stop
    · obtain rfl := Option.some.inj hsome
      exact h.closes hlisted
  | hangup =>
    obtain ⟨-, hsome⟩ := Option.ite_none_right_eq_some.mp hstep
    obtain rfl := Option.some.inj hsome
    exact h.stop
  | close sd =>
    obtain ⟨hlisted, hsome⟩ := Option.ite_none_right_eq_some.mp hstep
    obtain rfl := Option.some.inj hsome
    exact h.closes hlisted
  | destroy =>
    obtain rfl := Option.some.inj hstep
    exact h.destroy

/-- Nothing has been lost, and a pool that does not run has no listening socket. -/
structure Tidy (o : Object) : Prop where
  left : o.left = ∅
  idle : o.mainRun = false → o.mainSocket = ∅

theorem Tidy.start (hleft : o.left = ∅) (epoll : Option Fd) (noticed : Bool) :
    Tidy (o.start epoll noticed).1 := by
  rw [Object.start]
  dsimp only
  split
  · exact ⟨hleft, fun hidle => absurd hidle (by simp)⟩
  · next hpos =>
    split
    all_goals exact ⟨hleft, fun _ => Object.mainSocket_nonpos (by exact Int.not_lt.mp hpos)⟩

theorem Tidy.create {l : Listening} (h : Tidy o) (hopen : 0 ∈ o.opened) (hidle : o.mainRun = false)
    (hsocket : ∀ fd ∈ l.socket, fd ∉ o.opened) (port : UInt16) (epoll : Option Fd)
    (noticed : Bool) : Tidy (o.create port l epoll noticed).1 := by
  have hsame : o.left ∪ o.mainSocket = ∅ := by
    rw [h.left, h.idle hidle, Finset.union_empty]
  rw [Object.create]
  split
  · dsimp only
    split
    · next hlt =>
      have hne : (tcpCreate o.opened l).1 ≠ 0 := by
        cases hobtained : l.obtained with
        | none =>
          have hneg := (tcpCreate_failed hsocket hobtained).1
          omega
        | some fd =>
          rw [tcpCreate_obtained hobtained]
          intro heq
          obtain rfl : fd = 0 := Int.ofNat_eq_zero.mp heq
          exact hsocket 0 (obtained_socket hobtained) hopen
      rw [if_neg hne]
      exact ⟨hsame, fun _ => Object.mainSocket_nonpos (by exact Int.le_of_lt_add_one hlt)⟩
    · exact Tidy.start hsame epoll noticed
  · exact Tidy.start h.left epoll noticed

/-- A main socket in `m_connect` is the user's. -/
theorem Ledger.mainSocket_listed (h : Ledger base o) (hlisted : sd ∈ o.connect)
    (hmain : o.sockmain = sd) : o.mainSocket = ∅ := by
  have hnodup := h.opened ▸ o.opened.nodup
  have hdisjoint := (Multiset.nodup_add.mp (Multiset.nodup_add.mp hnodup).1).2.2
  rw [Object.mainSocket, if_neg]
  intro hlistening
  have hsocket : sd ∈ o.mainSocket := by
    rw [Object.mainSocket, if_pos hlistening, hmain]
    simp
  exact Multiset.disjoint_left.mp hdisjoint
    (Multiset.mem_add.mpr (.inr (Finset.mem_val.mpr hlisted))) (Finset.mem_val.mpr hsocket)

/-- Descriptors are lost only when a listening socket is hung up, or as descriptor 0. -/
theorem Tidy.step {a : LifeAction} (h : Tidy o) (hbooks : Ledger base o) (hzero : 0 ∈ base)
    (ha : a ≠ .hangup) (hstep : o.step a = some o') : Tidy o' := by
  have hopen : 0 ∈ o.opened := hbooks.mem.mpr (.inl hzero)
  cases a with
  | create port l epoll noticed =>
    obtain ⟨⟨hidle, hsocket, -⟩, hsome⟩ := Option.ite_none_right_eq_some.mp hstep
    obtain rfl := Option.some.inj hsome
    exact h.create hopen hidle hsocket port epoll noticed
  | dial sd =>
    obtain ⟨⟨hidle, -⟩, hsome⟩ := Option.ite_none_right_eq_some.mp hstep
    obtain rfl := Option.some.inj hsome
    refine ⟨?_, fun _ => by simp [Object.mainSocket]⟩
    change o.left ∪ o.mainSocket = ∅
    rw [h.left, h.idle hidle, Finset.union_empty]
  | add sd =>
    obtain ⟨-, hsome⟩ := Option.ite_none_right_eq_some.mp hstep
    obtain rfl := Option.some.inj hsome
    exact ⟨h.left, h.idle⟩
  | accept sd =>
    obtain ⟨⟨-, -, hfresh⟩, hsome⟩ := Option.ite_none_right_eq_some.mp hstep
    split at hsome
    · obtain rfl := Option.some.inj hsome
      exact ⟨h.left, h.idle⟩
    · next hsd =>
      obtain rfl : sd = 0 := Nat.eq_zero_of_not_pos hsd
      exact absurd hopen hfresh
  | lost sd =>
    obtain ⟨⟨-, hlisted⟩, hsome⟩ := Option.ite_none_right_eq_some.mp hstep
    split at hsome
    · next hmain =>
      obtain rfl := Option.some.inj hsome
      exact ⟨h.left, fun _ => hbooks.mainSocket_listed hlisted hmain⟩
    · obtain rfl := Option.some.inj hsome
      exact ⟨h.left, h.idle⟩
  | hangup => exact absurd rfl ha
  | close sd =>
    obtain ⟨-, hsome⟩ := Option.ite_none_right_eq_some.mp hstep
    obtain rfl := Option.some.inj hsome
    exact ⟨h.left, h.idle⟩
  | destroy =>
    obtain rfl := Option.some.inj hstep
    cases hrun : o.mainRun with
    | false =>
      rw [Object.destroy_idle hrun]
      exact h
    | true =>
      obtain ⟨-, hleft, -, hmain⟩ := hbooks.destroy_same hrun
      exact ⟨hleft.trans h.left, fun _ => hmain⟩

end Steps

end Tst.Pool
