import Tst.Ami.Event
import Tst.WebSocket.Bounds

/-!
# Output wake-ups

`need_send` makes a work thread run a socket for `EPOLLOUT`. The worker then calls the function
that it calls for input: `websocket()` does not look at the event bits, and `ami_event()` clears
its receive buffer behind each of its branches.

## Main definitions

- `Inbox.moved` — the worker's transfer on a socket with both buffers
- `WsRecv.wakeSend`, `AmiConn.wakeSend` — a wake-up of such a socket
- `Inbox.Unfinished` — the worker does not come to call the function

## Main results

- `output_undisturbed_iff` — an output wake-up leaves what has been received alone exactly when the
  function is not called, or there is nothing for it to spoil
-/

namespace Tst

open Bytes

/-- What a socket has received: its `recv`, and the bytes that have arrived and are unread. -/
structure Inbox where
  recv : TstData
  unread : List UInt8

/-- A wake-up: the event bits, the count that `tst_main` stores, the send buffer of the socket, and
what `write()` answers. -/
structure SendWake where
  events : Events
  checkLen : UInt32 := 0
  send : Option TstData := none
  write : (n : Nat) → WriteResult n := fun _ => none

namespace Inbox

/-- The kernel's side of the socket. `SIOCINQ` counts into an `int`. -/
def kernel (b : Inbox) (k : SendWake) : Kernel where
  siocinq := some (UInt32.ofNat (min b.unread.length (2 ^ 31 - 1)))
  read n := if 0 < n ∧ b.unread = [] then none else some ⟨b.unread.take n, List.length_take_le ..⟩
  write := k.write

/-- What `tst_main` stores in the socket `sd`, and the worker's transfer. -/
def moved (b : Inbox) (sd : Nat) (k : SendWake) : JobMoved :=
  let sock : TstSocket := { sd, recv := some b.recv, send := k.send }
  (sock.handEvents k.events k.checkLen).transfer (b.kernel k)

/-- What has been received, after the transfer. -/
def after (b : Inbox) (sd : Nat) (k : SendWake) : Inbox where
  recv := (b.moved sd k).sock.recv.getD b.recv
  unread := if k.events.input then b.unread.drop (b.moved sd k).bytes.length else b.unread

/-- The worker does not call the function: the automatic send is not complete after this `write()`,
or the event is for urgent data and the worker has nothing to fetch. -/
def Unfinished (b : Inbox) (k : SendWake) : Prop :=
  if k.events.input then b.recv.Pending ∧ b.unread = []
  else ∃ d ∈ k.send, d.Pending ∧
    addResult d.comLen ((k.write (d.reqLen - d.comLen).toNat).map (·.val)) < d.reqLen

end Inbox

/-- The buffer is as `reset_data` leaves it. -/
def TstData.AsReset (d : TstData) : Prop := d.resetData = d

/-- The same bytes, and the same position in them. -/
structure TstData.Same (d d' : TstData) : Prop where
  s : d'.s = d.s
  comLen : d'.comLen = d.comLen
  reqPos : d'.reqPos = d.reqPos
  reqLen : d'.reqLen = d.reqLen

namespace WsRecv

def inbox (w : WsRecv) : Inbox := ⟨w.recv, w.unread⟩

def withInbox (w : WsRecv) (b : Inbox) : WsRecv := { w with recv := b.recv, unread := b.unread }

/-- A wake-up of a socket that has a send buffer. -/
def wakeSend (w : WsRecv) (junk : Nat → UInt8) (func : Option WebsocketFunc) (k : SendWake) :
    WsResult :=
  let conn := w.withInbox (w.inbox.after w.sd k)
  let next := (w.inbox.moved w.sd k).next
  if next = .run then conn.websocket junk func else { conn, next }

/-- Between two wake-ups bytes arrive; a wake-up leaves the connection open. -/
inductive Served : WsRecv → WsRecv → Prop
  | arrive (w : WsRecv) (bs : List UInt8) : Served w (w.arrive bs)
  | wake (w : WsRecv) (junk : Nat → UInt8) (func : Option WebsocketFunc) (k : SendWake)
    (hnext : (w.wakeSend junk func k).next ≠ .disconnect) :
    Served w (w.wakeSend junk func k).conn

/-- No frame has been begun, nothing is there to be read, and there is no function to call. -/
structure Idle (w : WsRecv) (func : Option WebsocketFunc) : Prop where
  func : func = none
  info : w.info = {}
  unread : w.unread = []
  recv : w.recv.AsReset

/-- A wake-up has left what was received as it was, has delivered nothing, and does not ask to
disconnect. -/
structure Undisturbed (w : WsRecv) (r : WsResult) : Prop where
  recv : w.recv.Same r.conn.recv
  info : r.conn.info = w.info
  unread : r.conn.unread = w.unread
  delivered : r.delivered = []
  next : r.next ≠ .disconnect

end WsRecv

namespace AmiConn

def inbox (conn : AmiConn) : Inbox := ⟨conn.recv, conn.unread⟩

/-- A wake-up of a socket that has a send buffer, with what the worker does next. -/
def wakeSend (conn : AmiConn) (k : SendWake) (handlers : List (List UInt8)) (view : ManageView) :
    AmiResult × TstStat :=
  let b := conn.inbox.after conn.sd k
  let conn' := { conn with recv := b.recv, unread := b.unread }
  let next := (conn.inbox.moved conn.sd k).next
  if next = .run then (conn'.amiEvent k.events handlers view, .suspend)
  else ({ conn := conn' }, next)

/-- The same for the AMI connection, on which a message is what is delivered. -/
structure Undisturbed (conn : AmiConn) (r : AmiResult × TstStat) : Prop where
  recv : conn.recv.Same r.1.conn.recv
  unread : r.1.conn.unread = conn.unread
  message : r.1.message = none
  next : r.2 ≠ .disconnect

end AmiConn

-- ════════════════════════════════════════════════════════════════════════
-- The transfer
-- ════════════════════════════════════════════════════════════════════════

section Transfer

variable {b : Inbox} {k : SendWake} {sd : Nat}

/-- The receive buffer as the worker finds it. -/
def Inbox.taken (b : Inbox) (k : SendWake) : TstData :=
  if k.events.input then { b.recv with checkedLen := k.checkLen } else b.recv

theorem TstData.same_refl (d : TstData) : d.Same d := ⟨rfl, rfl, rfl, rfl⟩

theorem Inbox.moved_input (hin : k.events.input = true) (sd : Nat) :
    (b.moved sd k).sock.recv = some (if b.recv.reqLen ≠ 0
        then ((b.taken k).autoRecv (b.kernel k)).data else b.taken k) ∧
      (b.moved sd k).next = (if b.recv.reqLen ≠ 0
        then ((b.taken k).autoRecv (b.kernel k)).next else .run) ∧
      (b.moved sd k).bytes = (if b.recv.reqLen ≠ 0
        then ((b.taken k).autoRecv (b.kernel k)).bytes else []) := by
  have hhand : TstSocket.handEvents { sd, recv := some b.recv, send := k.send } k.events k.checkLen =
      { sd, events := k.events, recv := some (b.taken k), send := k.send } := by
    simp [TstSocket.handEvents, hin, taken]
  have hreq : (b.taken k).reqLen = b.recv.reqLen := by simp [taken, hin]
  rw [moved, hhand, TstSocket.transfer]
  simp only [hin, if_true, hreq]
  split
  · exact ⟨rfl, rfl, rfl⟩
  · exact ⟨rfl, rfl, rfl⟩

/-- A wake-up that is not for input leaves the receive buffer alone. -/
theorem Inbox.moved_recv (hin : k.events.input = false) (sd : Nat) :
    (b.moved sd k).sock.recv = some b.recv := by
  have hhand : (TstSocket.handEvents { sd, recv := some b.recv, send := k.send } k.events
      k.checkLen).recv = some b.recv := by
    simp only [TstSocket.handEvents, hin, Bool.false_eq_true, false_and, if_false]
    split
    · rfl
    · rfl
  rw [moved, TstSocket.transfer]
  simp only [TstSocket.handEvents_events, hin, Bool.false_eq_true, if_false]
  split
  · split
    · split
      · exact hhand
      · exact hhand
    · exact hhand
  · exact hhand

theorem Inbox.moved_output (hin : k.events.input = false) (hout : k.events.epollout = true)
    (sd : Nat) :
    (b.moved sd k).next = .send ∧ b.Unfinished k ∨
      (b.moved sd k).next = .run ∧ ¬ b.Unfinished k := by
  cases hsend : k.send with
  | none => simp [moved, TstSocket.handEvents, TstSocket.transfer, Unfinished, hin, hout, hsend]
  | some d =>
    by_cases hreq : d.reqLen = 0
    · simp [moved, TstSocket.handEvents, TstSocket.transfer, Unfinished, hin, hout, hsend, hreq,
        TstData.Pending]
    · have hhand : TstSocket.handEvents { sd, recv := some b.recv, send := k.send } k.events
          k.checkLen =
            ⟨sd, k.events, some b.recv, some { d with checkedLen := k.checkLen }⟩ := by
        simp [TstSocket.handEvents, hin, hout, hsend]
      have hunfinished : b.Unfinished k ↔ d.Pending ∧
          addResult d.comLen ((k.write (d.reqLen - d.comLen).toNat).map (·.val)) < d.reqLen := by
        simp [Unfinished, hin, hsend]
      rw [moved, hhand, TstSocket.transfer, hunfinished]
      simp only [hin, hout, Bool.false_eq_true, if_false, if_true, ne_eq, hreq, not_false_eq_true,
        TstData.autoSend]
      split
      · next hge => exact .inr ⟨rfl, fun h => absurd h.1 (UInt32.not_lt.mpr hge)⟩
      · next hlt =>
        have hpend : d.Pending := UInt32.not_le.mp hlt
        by_cases hshort :
          addResult d.comLen ((k.write (d.reqLen - d.comLen).toNat).map (·.val)) < d.reqLen
        · exact .inl ⟨if_pos hshort, hpend, hshort⟩
        · exact .inr ⟨if_neg hshort, fun h => hshort h.2⟩

/-- A worker that is to fetch something asks for at least one byte when one is there. -/
theorem TstData.recvAsk_pos {d : TstData} {n : UInt32} (hpend : d.Pending) (hn : 0 < n.toNat) :
    0 < (d.recvAsk n).toNat := by
  have hlt : d.comLen.toNat < d.reqLen.toNat := UInt32.lt_iff_toNat_lt.mp hpend
  rw [TstData.recvAsk]
  split
  · rw [d.toNat_room (UInt32.le_of_lt hpend)]
    omega
  · exact hn

theorem TstData.autoRecv_bytes {d : TstData} {kernel : Kernel} {n : UInt32} (hpend : d.Pending)
    (hn : kernel.siocinq = some n) :
    (d.autoRecv kernel).bytes = ((kernel.read (d.recvAsk n).toNat).map (·.val)).getD [] := by
  have hge : ¬ d.comLen ≥ d.reqLen := UInt32.not_le.mpr hpend
  rw [TstData.autoRecv, if_neg hge, hn]
  dsimp only
  split
  · rfl
  · rfl

/-- What a transfer for urgent data does when the worker is to fetch something. -/
theorem Inbox.moved_fetch (hin : k.events.input = true) (hpend : b.recv.Pending) (sd : Nat) :
    b.unread = [] ∧ (b.moved sd k).next = .suspend ∧ (b.moved sd k).bytes = [] ∧
        (b.moved sd k).sock.recv = some { b.recv with checkedLen := 0 } ∨
      b.unread ≠ [] ∧ (b.moved sd k).bytes ≠ [] := by
  have hlt : b.recv.comLen.toNat < b.recv.reqLen.toNat := UInt32.lt_iff_toNat_lt.mp hpend
  have hreq : b.recv.reqLen ≠ 0 := by
    intro hzero
    rw [TstData.Pending, hzero] at hpend
    exact UInt32.not_lt_zero hpend
  have hge : ¬ b.recv.comLen ≥ b.recv.reqLen := UInt32.not_le.mpr hpend
  obtain ⟨hrecv, hnext, hbytes⟩ := moved_input (b := b) hin sd
  rw [if_pos hreq] at hrecv hnext hbytes
  rw [hrecv, hnext, hbytes]
  have htaken : b.taken k = { b.recv with checkedLen := k.checkLen } := if_pos hin
  rw [htaken]
  by_cases hu : b.unread = []
  · left
    rw [TstData.autoRecv, if_neg hge]
    simp [kernel, hu, TstData.recvAsk, hge, addResult]
  · right
    have hlen : 0 < b.unread.length := List.length_pos_iff.mpr hu
    have hcount : 0 < (UInt32.ofNat (min b.unread.length (2 ^ 31 - 1))).toNat := by
      rw [UInt32.toNat_ofNat']
      omega
    have hpend' : TstData.Pending { b.recv with checkedLen := k.checkLen } := hpend
    have hask := TstData.recvAsk_pos hpend' hcount
    refine ⟨hu, ?_⟩
    rw [TstData.autoRecv_bytes hpend' rfl]
    simpa [kernel, hu] using Nat.ne_of_gt hask

/-- The worker does not call the function. -/
theorem Inbox.after_unfinished (hout : k.events.epollout = true) (h : b.Unfinished k) (sd : Nat) :
    b.recv.Same (b.after sd k).recv ∧ (b.after sd k).unread = b.unread ∧
      (b.moved sd k).next ≠ .run ∧ (b.moved sd k).next ≠ .disconnect := by
  cases hinput : k.events.input with
  | false =>
    obtain ⟨hnext, -⟩ | ⟨-, hnot⟩ := moved_output (b := b) hinput hout sd
    · simp [after, moved_recv hinput, hnext, hinput, TstData.same_refl]
    · exact absurd h hnot
  | true =>
    rw [Unfinished, if_pos hinput] at h
    obtain ⟨hpend, hu⟩ := h
    obtain ⟨-, hnext, hbytes, hrecv⟩ | ⟨hne, -⟩ := moved_fetch hinput hpend sd
    · simp only [after, hrecv, hnext, hbytes, Option.getD_some, List.length_nil, List.drop_zero,
        ite_self]
      exact ⟨⟨rfl, rfl, rfl, rfl⟩, trivial, by decide, by decide⟩
    · exact absurd hu hne

/-- The worker calls the function with what has been received, or it has fetched something. -/
theorem Inbox.after_finished (hout : k.events.epollout = true) (h : ¬ b.Unfinished k) (sd : Nat) :
    b.after sd k = ⟨b.taken k, b.unread⟩ ∧ (b.moved sd k).next = .run ∨
      b.recv.Pending ∧ (b.after sd k).unread.length < b.unread.length := by
  cases hinput : k.events.input with
  | false =>
    obtain ⟨-, hunfinished⟩ | ⟨hnext, -⟩ := moved_output (b := b) hinput hout sd
    · exact absurd hunfinished h
    · left
      simp [after, taken, moved_recv hinput, hnext, hinput]
  | true =>
    by_cases hpend : b.recv.Pending
    · refine .inr ⟨hpend, ?_⟩
      obtain ⟨hu, -⟩ | ⟨hu, hbytes⟩ := moved_fetch (b := b) hinput hpend sd
      · rw [Unfinished, if_pos hinput] at h
        exact absurd ⟨hpend, hu⟩ h
      · have hlen := List.length_pos_iff.mpr hu
        have hsome := List.length_pos_iff.mpr hbytes
        rw [after, if_pos hinput, List.length_drop]
        omega
    · left
      have hge : (b.taken k).comLen ≥ (b.taken k).reqLen := by
        rw [taken, if_pos hinput]
        exact UInt32.not_lt.mp hpend
      obtain ⟨hrecv, hnext, hbytes⟩ := moved_input (b := b) hinput sd
      rw [TstData.autoRecv, if_pos hge, ite_self] at hrecv hnext hbytes
      rw [after, hrecv, hnext, hbytes]
      simp

end Transfer

-- ════════════════════════════════════════════════════════════════════════
-- A call of `websocket()`
-- ════════════════════════════════════════════════════════════════════════

namespace WsRecv

section Unread

variable {w : WsRecv} {n p : Nat}

theorem read_unread (w : WsRecv) (p n : Nat) : (w.read p n).1.unread = w.unread.drop n := by
  rw [read]
  split
  · next hnone => rw [hnone.2, List.drop_nil]
  · rfl

theorem readFirst_unread (w : WsRecv) (n : Nat) : (w.readFirst n).unread = w.unread.drop n :=
  w.read_unread 0 n

theorem readMore_unread (w : WsRecv) (n : Nat) : (w.readMore n).unread = w.unread.drop n :=
  w.read_unread w.recv.comLen.toNat n

theorem readMask_unread_le (w : WsRecv) : w.readMask.unread.length ≤ w.unread.length := by
  rw [readMask]
  split
  · rw [readMore_unread, List.length_drop]
    exact Nat.sub_le ..
  · exact Nat.le_refl _

theorem readLen_unread_le (w : WsRecv) : w.readLen.1.unread.length ≤ w.unread.length := by
  have hextended (n v : Nat) :
      ((w.readMore n).setLen v).readMask.unread.length ≤ w.unread.length := by
    refine Nat.le_trans (readMask_unread_le _) ?_
    rw [setLen, readMore_unread, List.length_drop]
    exact Nat.sub_le ..
  rw [readLen]
  split
  · exact readMask_unread_le w
  · split
    · exact hextended 2 _
    · exact hextended 8 _

theorem readStart_unread (w : WsRecv) : w.readStart.unread = w.unread.drop 2 :=
  w.readFirst_unread 2

theorem finish_unread (w : WsRecv) (func : Option WebsocketFunc) :
    (w.finish func).conn.unread = w.unread := by
  obtain hconn | hconn := w.finish_conn func
  · rw [hconn]
    exact w.unmasked_unread
  · rw [hconn]
    exact w.unmasked_unread

/-- A call reads from the front of what is unread, and the beginning of a frame takes something. -/
theorem websocket_unread_le (w : WsRecv) (junk : Nat → UInt8) (func : Option WebsocketFunc) :
    (w.websocket junk func).conn.unread.length ≤
      (if w.info.step = 0 then w.unread.drop 2 else w.unread).length := by
  rw [websocket]
  split
  · have hlen := w.readStart.readLen_unread_le
    rw [readStart_unread] at hlen
    have hread (n : Nat) :
        ((w.readStart.readLen.1.openPayload junk w.readStart.readLen.2).readFirst n).unread.length ≤
          (w.unread.drop 2).length := by
      rw [readFirst_unread, List.length_drop]
      exact Nat.le_trans (Nat.sub_le ..) hlen
    dsimp only
    split
    · exact hlen
    · split
      · exact hread _
      · rw [finish_unread]
        exact hread _
  · rw [finish_unread]

end Unread

section Sized

variable {w : WsRecv} {junk : Nat → UInt8} {func : Option WebsocketFunc}

/-- What is noted as the size of the buffer has been allocated, and there is room for a header. -/
structure Sized (w : WsRecv) : Prop where
  wf : w.recv.WF
  room : 14 ≤ w.recv.sLen.toNat

theorem Kept.sized {w' : WsRecv} (h : Kept w w') (hw : w.Sized) : w'.Sized :=
  ⟨h.wf hw.wf, h.sLen ▸ hw.room⟩

theorem Sized.finish (hw : w.Sized) (func : Option WebsocketFunc) :
    (w.finish func).conn.Sized := by
  have hunmasked : w.unmasked.Sized := ⟨unmasked_wf hw.wf, w.unmasked_sLen ▸ hw.room⟩
  obtain hconn | hconn := w.finish_conn func
  · rw [hconn]
    exact ⟨resetData_wf hunmasked.wf, hunmasked.room⟩
  · rw [hconn]
    exact hunmasked

theorem Sized.websocket (hw : w.Sized) : (w.websocket junk func).conn.Sized := by
  rw [WsRecv.websocket]
  split
  · have hheader : w.readStart.readLen.1.Sized :=
      ((kept_readStart w).trans (kept_readLen _)).sized hw
    dsimp only
    split
    · exact hheader
    · next hlimit =>
      have hle : w.readStart.readLen.1.info.dataLen ≤ 10485760 := by
        by_contra hbig
        exact hlimit ⟨readLen_limit _ (Nat.not_le.mp hbig), Nat.not_le.mp hbig⟩
      obtain ⟨hopen, -, -⟩ :=
        bounded_openPayload hheader.wf hheader.room hle junk w.readStart.readLen.2
      have hread := (kept_readFirst _ w.readStart.readLen.1.info.dataLen).sized
        (w := w.readStart.readLen.1.openPayload junk w.readStart.readLen.2)
        ⟨hopen.wf, hopen.room⟩
      split
      · exact ⟨hread.wf, hread.room⟩
      · exact hread.finish func
  · exact hw.finish func

theorem TstData.autoRecv_size (d : TstData) (kernel : Kernel) :
    (d.autoRecv kernel).data.sLen = d.sLen ∧
      (d.autoRecv kernel).data.s.length = d.s.length := by
  rw [TstData.autoRecv]
  split
  · exact ⟨rfl, rfl⟩
  · split
    · exact ⟨rfl, rfl⟩
    · dsimp only
      split
      · exact ⟨rfl, length_splice ..⟩
      · exact ⟨rfl, length_splice ..⟩

/-- The transfer of a wake-up does not change the size of the buffer. -/
theorem Sized.after (hw : w.Sized) (k : SendWake) :
    (w.withInbox (w.inbox.after w.sd k)).Sized := by
  suffices h : (w.inbox.after w.sd k).recv.sLen = w.recv.sLen ∧
      (w.inbox.after w.sd k).recv.s.length = w.recv.s.length by
    have hkept : Kept w (w.withInbox (w.inbox.after w.sd k)) := ⟨h.1, h.2, rfl⟩
    exact hkept.sized hw
  cases hinput : k.events.input with
  | false =>
    rw [Inbox.after, Inbox.moved_recv hinput]
    exact ⟨rfl, rfl⟩
  | true =>
    have htaken : w.inbox.taken k = { w.recv with checkedLen := k.checkLen } := if_pos hinput
    obtain ⟨hrecv, -⟩ := Inbox.moved_input (b := w.inbox) hinput w.sd
    rw [Inbox.after, hrecv, Option.getD_some, htaken]
    dsimp only
    split
    · exact TstData.autoRecv_size ..
    · exact ⟨rfl, rfl⟩

theorem Sized.wakeSend (hw : w.Sized) (k : SendWake) : (w.wakeSend junk func k).conn.Sized := by
  rw [WsRecv.wakeSend]
  split
  · exact (hw.after k).websocket
  · exact hw.after k

theorem sized_of_run {w₀ : WsRecv} (hw₀ : w₀.Ready) (hrun : Relation.ReflTransGen Served w₀ w) :
    w.Sized := by
  induction hrun with
  | refl => exact ⟨hw₀.wf, hw₀.room⟩
  | tail _ hstep ih =>
    cases hstep with
    | arrive bs => exact ⟨ih.wf, ih.room⟩
    | wake junk func k _ => exact ih.wakeSend k

end Sized

end WsRecv

section AsReset

variable {d : TstData}

/-- Zeros over a front of zeros. -/
theorem splice_zeros (s : List UInt8) {m n : Nat} (h : n ≤ m) :
    splice (splice s 0 (List.replicate m 0)) 0 (List.replicate n 0) =
      splice s 0 (List.replicate m 0) := by
  apply List.ext_getElem?
  intro i
  simp only [splice, List.take_zero, List.nil_append, Nat.zero_add, List.length_replicate,
    List.length_take, List.length_append, List.length_drop, List.getElem?_take,
    List.getElem?_append, List.getElem?_replicate, List.getElem?_drop]
  grind

/-- A buffer that some reset has left is as its own reset leaves it, if it is no larger. -/
theorem TstData.asReset_of_same {d' : TstData} (h : d.Same d'.resetData) (hle : d.sLen ≤ d'.sLen) :
    d.AsReset := by
  have hs : splice d.s 0 (List.replicate d.sLen.toNat 0) = d.s := by
    rw [← h.s]
    exact splice_zeros d'.s (UInt32.le_iff_toNat_le.mp hle)
  obtain ⟨reqPos, reqLen, comLen, checkedLen, sLen, s⟩ := d
  obtain rfl : 0 = comLen := h.comLen
  obtain rfl : 0 = reqPos := h.reqPos
  obtain rfl : 0 = reqLen := h.reqLen
  exact congrArg (TstData.mk 0 0 0 checkedLen sLen) hs

theorem TstData.AsReset.not_pending (h : d.AsReset) : ¬ d.Pending := by
  have hreq : 0 = d.reqLen := congrArg TstData.reqLen h
  rw [Pending, ← hreq]
  exact UInt32.not_lt_zero

theorem TstData.AsReset.getD (h : d.AsReset) {i : Nat} (hi : i < d.sLen.toNat) :
    d.s.getD i 0 = 0 := by
  have hs : d.resetData.s = d.s := congrArg TstData.s h
  rw [← hs, resetData, List.getD_eq_getElem?_getD]
  simp only [splice, List.take_zero, List.nil_append, Nat.zero_add, List.length_replicate,
    List.getElem?_take, List.getElem?_append_left, List.getElem?_replicate, hi, if_true]
  split
  · rfl
  · rfl

theorem TstData.asReset_checkedLen (d : TstData) (n : UInt32) :
    TstData.AsReset { d with checkedLen := n } ↔ d.AsReset := by
  cases d
  simp [TstData.AsReset, TstData.resetData]

end AsReset

namespace WsRecv

section Dry

variable {w : WsRecv} {junk : Nat → UInt8} {func : Option WebsocketFunc}

/-- A call on a connection as it was reset, with nothing to read and nothing to call. -/
theorem Idle.websocket (h : w.Idle func) (hw : w.Sized) :
    w.websocket junk func = { conn := w, next := .suspend } := by
  obtain ⟨rfl, hinfo, hu, hrecv⟩ := h
  have hroom := hw.room
  have hreset : w.recv.resetData = w.recv := hrecv
  have hcom : w.recv.comLen = 0 := (congrArg TstData.comLen hreset).symm
  have hzero (i : Nat) (hi : i < 2) : w.recv.s[i]?.getD 0 = 0 := by
    rw [← List.getD_eq_getElem?_getD]
    exact hrecv.getD (by omega)
  have hfirst := hzero 0 (by decide)
  have hsecond := hzero 1 (by decide)
  -- two bytes that are zero are the header of an empty frame
  have hheader : ({} : WsInfo).start 0 0 = {} := by decide
  have hstart : w.readStart =
      { w with recv := { w.recv with comLen := addResult 0 none }, info := {} } := by
    simp [readStart, readFirst, read, hu, hinfo, hfirst, hsecond, hheader]
  have hlen : w.readStart.readLen = (w.readStart, 2) := by
    simp [hstart, readLen, readMask]
  have hopen : w.readStart.openPayload junk 2 =
      { w with info := { step := 1, data := some 0 } } := by
    have hclear : TstData.resetData { w.recv with comLen := addResult 0 none } = w.recv := hreset
    simp [hstart, openPayload, hclear]
  have hread : (w.readStart.openPayload junk 2).readFirst 0 =
      { w with info := { step := 1, data := some 0 } } := by
    have hsame : { w.recv with comLen := 0 } = w.recv := by rw [← hcom]
    simp [hopen, readFirst, read, addResult, hsame]
  have hdata : w.readStart.info.dataLen = 0 := by rw [hstart]
  have hconn : { w with info := {} } = w := by rw [← hinfo]
  have hstep : w.info.step = 0 := by rw [hinfo]
  rw [WsRecv.websocket, if_pos hstep]
  simp only [hlen, hdata, hread]
  simp [finish, reset, hreset, hconn]

/-- A `read()` that fails counts as more bytes than there can be. -/
theorem comLen_readFirst_dry {n : Nat} (hu : w.unread = []) (hn : n < 2 ^ 32) :
    n ≤ (w.readFirst n).recv.comLen.toNat := by
  by_cases hpos : 0 < n
  · have hcom : (w.readFirst n).recv.comLen = addResult 0 none := by simp [readFirst, read, hpos, hu]
    have hmax : (addResult 0 none).toNat = 2 ^ 32 - 1 := by decide
    rw [hcom, hmax]
    omega
  · omega

theorem sLen_openPayload_ge (w : WsRecv) (junk : Nat → UInt8) (mPos : Nat)
    (hle : w.info.dataLen ≤ 10485760) : w.recv.sLen ≤ (w.openPayload junk mPos).recv.sLen := by
  rw [UInt32.le_iff_toNat_le]
  simp only [openPayload, TstData.resetData_sLen]
  split
  · next hbig =>
    rw [(grow_wf w.recv junk (Nat.lt_of_le_of_lt hle (by decide))).2]
    exact Nat.le_of_lt hbig
  · exact Nat.le_refl _

/-- A call on a connection that waits for a frame, with nothing to read: it is refused, or the
function is given what is in the buffer. -/
theorem websocket_dry (hstep : w.info.step = 0) (hu : w.unread = [])
    (hnext : (w.websocket junk func).next ≠ .disconnect) :
    ∃ x : WsRecv, w.websocket junk func = x.finish func ∧ w.recv.sLen ≤ x.recv.sLen := by
  have hkept := (kept_readStart w).trans (kept_readLen _)
  have hheader : w.readStart.readLen.1.unread = [] := by
    have hle := w.readStart.readLen_unread_le
    rw [readStart_unread, hu, List.drop_nil] at hle
    exact List.length_eq_zero_iff.mp (Nat.le_zero.mp hle)
  rw [WsRecv.websocket, if_pos hstep] at hnext ⊢
  dsimp only at hnext ⊢
  split at hnext
  · exact absurd rfl hnext
  · next hlimit =>
    rw [if_neg hlimit]
    have hle : w.readStart.readLen.1.info.dataLen ≤ 10485760 := by
      by_contra hbig
      exact hlimit ⟨readLen_limit _ (Nat.not_le.mp hbig), Nat.not_le.mp hbig⟩
    have hopen := sLen_openPayload_ge w.readStart.readLen.1 junk w.readStart.readLen.2 hle
    have hfull := comLen_readFirst_dry (w := w.readStart.readLen.1.openPayload junk
      w.readStart.readLen.2) (n := w.readStart.readLen.1.info.dataLen) hheader (by omega)
    refine ⟨_, if_neg ?_, ?_⟩
    · rw [readFirst_info]
      exact Nat.not_lt.mpr hfull
    · rw [(kept_readFirst _ _).sLen, ← hkept.sLen]
      exact hopen

/-- What a call leaves as it was. -/
theorem undisturbed_websocket_iff (hw : w.Sized) :
    w.Undisturbed (w.websocket junk func) ↔ w.Idle func := by
  constructor
  · intro h
    by_cases hstep : w.info.step = 0
    · have hu : w.unread = [] := by
        by_contra hne
        have hlen := w.websocket_unread_le junk func
        have hpos := List.length_pos_iff.mpr hne
        rw [h.unread, if_pos hstep, List.length_drop] at hlen
        omega
      obtain ⟨x, hx, hle⟩ := websocket_dry hstep hu h.next
      rw [hx] at h
      cases func with
      | none => exact ⟨rfl, h.info.symm, hu, TstData.asReset_of_same h.recv (x.unmasked_sLen ▸ hle)⟩
      | some f =>
        have hdelivered := h.delivered
        exact absurd hdelivered (by simp [finish])
    · rw [WsRecv.websocket, if_neg hstep] at h
      cases func with
      | none =>
        have hinfo : ({} : WsInfo) = w.info := h.info
        exact absurd (hinfo ▸ rfl) hstep
      | some f =>
        have hdelivered := h.delivered
        exact absurd hdelivered (by simp [finish])
  · intro h
    rw [h.websocket hw]
    exact ⟨w.recv.same_refl, rfl, rfl, rfl, TstStat.noConfusion⟩

end Dry

end WsRecv

-- ════════════════════════════════════════════════════════════════════════
-- Output wake-ups
-- ════════════════════════════════════════════════════════════════════════

section Output

variable {w : WsRecv} {conn : AmiConn} {k : SendWake} {junk : Nat → UInt8}
  {func : Option WebsocketFunc} {handlers : List (List UInt8)} {view : ManageView}

theorem Inbox.taken_same (b : Inbox) (k : SendWake) : b.recv.Same (b.taken k) := by
  rw [taken]
  split
  · exact ⟨rfl, rfl, rfl, rfl⟩
  · exact ⟨rfl, rfl, rfl, rfl⟩

theorem TstData.Same.trans {d d' d'' : TstData} (h : d.Same d') (h' : d'.Same d'') : d.Same d'' :=
  ⟨h'.s.trans h.s, h'.comLen.trans h.comLen, h'.reqPos.trans h.reqPos, h'.reqLen.trans h.reqLen⟩

theorem TstData.Same.symm {d d' : TstData} (h : d.Same d') : d'.Same d :=
  ⟨h.s.symm, h.comLen.symm, h.reqPos.symm, h.reqLen.symm⟩

theorem Inbox.taken_asReset_iff (b : Inbox) (k : SendWake) :
    (b.taken k).AsReset ↔ b.recv.AsReset := by
  rw [taken]
  split
  · exact TstData.asReset_checkedLen ..
  · exact Iff.rfl

theorem WsRecv.undisturbed_wakeSend_iff (hw : w.Sized) (hout : k.events.epollout = true) :
    w.Undisturbed (w.wakeSend junk func k) ↔ w.inbox.Unfinished k ∨ w.Idle func := by
  rw [wakeSend]
  by_cases hunfinished : w.inbox.Unfinished k
  · obtain ⟨hrecv, hunread, hrun, hnext⟩ := Inbox.after_unfinished hout hunfinished w.sd
    rw [if_neg hrun]
    exact ⟨fun _ => .inl hunfinished, fun _ => ⟨hrecv, rfl, hunread, rfl, hnext⟩⟩
  · obtain ⟨hafter, hrun⟩ | ⟨-, hless⟩ := Inbox.after_finished hout hunfinished w.sd
    · -- the call works on what has been received
      have hsame : w.recv.Same (w.inbox.taken k) := w.inbox.taken_same k
      have hcalled : WsRecv.Sized (w.withInbox ⟨w.inbox.taken k, w.inbox.unread⟩) :=
        hafter ▸ hw.after k
      have hcall : WsRecv.Undisturbed (w.withInbox ⟨w.inbox.taken k, w.inbox.unread⟩)
          ((w.withInbox ⟨w.inbox.taken k, w.inbox.unread⟩).websocket junk func) ↔
            WsRecv.Idle (w.withInbox ⟨w.inbox.taken k, w.inbox.unread⟩) func :=
        undisturbed_websocket_iff hcalled
      have hidle : WsRecv.Idle (w.withInbox ⟨w.inbox.taken k, w.inbox.unread⟩) func ↔ w.Idle func :=
        ⟨fun h => ⟨h.func, h.info, h.unread, (w.inbox.taken_asReset_iff k).mp h.recv⟩,
          fun h => ⟨h.func, h.info, h.unread, (w.inbox.taken_asReset_iff k).mpr h.recv⟩⟩
      rw [if_pos hrun, hafter, or_iff_right hunfinished, ← hidle, ← hcall]
      exact ⟨fun h => ⟨hsame.symm.trans h.recv, h.info, h.unread, h.delivered, h.next⟩,
        fun h => ⟨hsame.trans h.recv, h.info, h.unread, h.delivered, h.next⟩⟩
    · -- the worker has fetched something
      constructor
      · intro h
        have hunread := congrArg List.length h.unread
        have hless' : (w.inbox.after w.sd k).unread.length < w.unread.length := hless
        split at hunread
        · have hle := (w.withInbox (w.inbox.after w.sd k)).websocket_unread_le junk func
          have hfetched : (w.withInbox (w.inbox.after w.sd k)).unread =
              (w.inbox.after w.sd k).unread := rfl
          rw [hunread, hfetched] at hle
          split at hle
          · rw [List.length_drop] at hle
            omega
          · omega
        · exact absurd hunread (Nat.ne_of_lt hless')
      · intro h
        have hnil : w.inbox.unread.length = 0 := congrArg List.length (h.resolve_left hunfinished).unread
        omega

theorem AmiConn.amiEvent_output (hin : k.events.epollin = false) :
    conn.amiEvent k.events handlers view = { conn := conn.reset } := by
  rw [amiEvent, hin]
  exact if_neg Bool.false_ne_true

theorem AmiConn.undisturbed_wakeSend_iff (hin : k.events.epollin = false)
    (hout : k.events.epollout = true) :
    conn.Undisturbed (conn.wakeSend k handlers view) ↔
      conn.inbox.Unfinished k ∨ conn.recv.AsReset := by
  rw [wakeSend]
  simp only [amiEvent_output hin]
  by_cases hunfinished : conn.inbox.Unfinished k
  · obtain ⟨hrecv, hunread, hrun, hnext⟩ := Inbox.after_unfinished hout hunfinished conn.sd
    rw [if_neg hrun]
    exact ⟨fun _ => .inl hunfinished, fun _ => ⟨hrecv, hunread, rfl, hnext⟩⟩
  · rw [or_iff_right hunfinished]
    obtain ⟨hafter, hrun⟩ | ⟨hpend, hless⟩ := Inbox.after_finished hout hunfinished conn.sd
    · have hsame : conn.recv.Same (conn.inbox.taken k) := conn.inbox.taken_same k
      have hasReset : (conn.inbox.taken k).AsReset ↔ conn.recv.AsReset :=
        conn.inbox.taken_asReset_iff k
      rw [if_pos hrun, hafter, ← hasReset]
      constructor
      · intro h
        exact TstData.asReset_of_same (hsame.symm.trans h.recv) (UInt32.le_refl _)
      · intro h
        have hreset : (conn.inbox.taken k).resetData = conn.inbox.taken k := h
        refine ⟨?_, rfl, rfl, TstStat.noConfusion⟩
        dsimp only [reset]
        rw [hreset]
        exact hsame
    · constructor
      · intro h
        have hunread := congrArg List.length h.unread
        have hless' : (conn.inbox.after conn.sd k).unread.length < conn.unread.length := hless
        split at hunread
        · exact absurd hunread (Nat.ne_of_lt hless')
        · exact absurd hunread (Nat.ne_of_lt hless')
      · intro h
        exact absurd hpend h.not_pending

/-- A socket without a send buffer. -/
theorem WsRecv.wakeSend_eq_wake (w : WsRecv) (e : Events) :
    w.wakeSend junk func { events := e, checkLen := UInt32.ofNat w.unread.length } =
      w.wake junk func e := by
  have hsent (he : e.input = false) :
      (w.inbox.moved w.sd { events := e, checkLen := UInt32.ofNat w.unread.length }).bytes = [] := by
    cases hout : e.epollout with
    | true => simp [Inbox.moved, TstSocket.handEvents, TstSocket.transfer, he, hout]
    | false => simp [Inbox.moved, TstSocket.handEvents, TstSocket.transfer, he, hout]
  have hunread : (w.inbox.after w.sd
      { events := e, checkLen := UInt32.ofNat w.unread.length }).unread =
        w.unread.drop (w.inbox.moved w.sd
          { events := e, checkLen := UInt32.ofNat w.unread.length }).bytes.length := by
    rw [Inbox.after]
    split
    · rfl
    · next he => rw [hsent (Bool.eq_false_iff.mpr he)]; rfl
  rw [wakeSend, withInbox, hunread]
  rfl

/-- For every state that a websocket connection reaches after its upgrade, for every state of the
AMI connection, and for every wake-up with `EPOLLOUT` and without `EPOLLIN`: it leaves what has been
received alone exactly when the function is not called, or there is nothing for it to spoil. -/
theorem output_undisturbed_iff (w₀ w : WsRecv) (conn : AmiConn) (k : SendWake) (junk : Nat → UInt8)
    (func : Option WebsocketFunc) (handlers : List (List UInt8)) (view : ManageView)
    (hw₀ : w₀.Ready) (hrun : Relation.ReflTransGen WsRecv.Served w₀ w)
    (hout : k.events.epollout = true) (hin : k.events.epollin = false) :
    (w.Undisturbed (w.wakeSend junk func k) ↔ w.inbox.Unfinished k ∨ w.Idle func) ∧
      (conn.Undisturbed (conn.wakeSend k handlers view) ↔
        conn.inbox.Unfinished k ∨ conn.recv.AsReset) :=
  ⟨WsRecv.undisturbed_wakeSend_iff (WsRecv.sized_of_run hw₀ hrun) hout,
    AmiConn.undisturbed_wakeSend_iff hin hout⟩

end Output

/-- Of a masked text of three bytes two have arrived, and the worker is to fetch the third. -/
def WsRecv.half : WsRecv :=
  ((WsRecv.upgraded [0x81, 0x83, 55, 250, 33, 61, 127, 159]).wakeSend (fun _ => 0)
    (some alwaysSuspend) { events := .base, checkLen := 8 }).conn

/-- An AMI connection that has read the beginning of a message. -/
def AmiConn.half : AmiConn where
  sd := 5
  recv := holding 16 textResponse

/-- No call waits for a response. -/
def ManageView.quiet : ManageView where
  pending := false
  awaited := false
  resp := {}
  actionid := 0
  actionid' := 0

/-- A send buffer with five bytes to be sent, to a socket that takes two at a time. -/
def SendWake.slow : SendWake where
  events := { epollout := true }
  send := some { TstData.alloc 8 with reqLen := 5 }
  write n := some ⟨min n 2, by omega⟩

theorem WsRecv.half_served : Relation.ReflTransGen WsRecv.Served
    (WsRecv.upgraded [0x81, 0x83, 55, 250, 33, 61, 127, 159]) WsRecv.half :=
  .single (.wake _ _ _ _ (by decide))

/-- While a send goes on, half a frame and half a message are left alone. -/
theorem output_undisturbed_slow :
    WsRecv.half.Undisturbed (WsRecv.half.wakeSend (fun _ => 0) (some alwaysSuspend) .slow) ∧
      AmiConn.half.Undisturbed (AmiConn.half.wakeSend .slow [] .quiet) := by
  have hunfinished (b : Inbox) : b.Unfinished .slow := ⟨_, rfl, by decide, by decide⟩
  have hboth := output_undisturbed_iff _ .half .half .slow (fun _ => 0) (some alwaysSuspend) []
    .quiet (WsRecv.upgraded_ready _) WsRecv.half_served rfl rfl
  exact ⟨hboth.1.mpr (.inl (hunfinished _)), hboth.2.mpr (.inl (hunfinished _))⟩

/-- When the worker has nothing to send, the function is given a frame of which a byte is missing. -/
theorem output_disturbs :
    ¬ ∀ (w₀ w : WsRecv) (conn : AmiConn) (k : SendWake) (junk : Nat → UInt8)
      (func : Option WebsocketFunc) (handlers : List (List UInt8)) (view : ManageView),
      w₀.Ready → Relation.ReflTransGen WsRecv.Served w₀ w → k.events.epollout = true →
      k.events.epollin = false →
      w.Undisturbed (w.wakeSend junk func k) ∧ conn.Undisturbed (conn.wakeSend k handlers view) := by
  intro h
  obtain ⟨hws, -⟩ := h _ _ .half { events := { epollout := true } } (fun _ => 0)
    (some alwaysSuspend) [] .quiet (WsRecv.upgraded_ready _) WsRecv.half_served rfl rfl
  exact absurd hws.delivered (by decide)

end Tst
