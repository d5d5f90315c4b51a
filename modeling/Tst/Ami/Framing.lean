import Tst.Ami.Event
import Tst.Lib.Execution

/-!
# Framing of the AMI stream

The server's messages arrive in any pieces. `ami_event()` handles one message in a call, and
every way out of it after a message resets the receive buffer. A NULL that is dereferenced
while a message is handled, or a table that overflows, ends the run.

## Main definitions

- `AmiLink` — the connection, the bytes that are still on their way to it, and the messages
  handled

## Main results

- `ami_framing` — the messages handled are the first pieces of the stream
-/

namespace Tst

open Bytes CString Execution Framing

/-- The AMI connection, the bytes that have not arrived, and the receive buffers of the
messages handled. -/
structure AmiLink where
  conn : AmiConn
  future : List UInt8
  handled : List TstData := []
  failed : Bool := false

/-- Bytes arrive, or the connection is woken when that many unread bytes are counted. -/
inductive AmiAction
  | arrive (n : Nat)
  | wake (e : Events) (n : Nat) (k : Kernel) (view : ManageView)

namespace AmiLink

/-- After the login, with a receive buffer of that size. -/
def start (sd : Nat) (sLen : UInt32) (stream : List UInt8) : AmiLink where
  conn := { sd, recv := .alloc sLen }
  future := stream

/-- One action; `handlers` are the names in `g_process`. -/
def step (handlers : List (List UInt8)) (l : AmiLink) : AmiAction → Option AmiLink
  | .arrive n =>
    some { l with
      conn := { l.conn with unread := l.conn.unread ++ l.future.take n }
      future := l.future.drop n }
  | .wake e n k view =>
    if e.epollin = true ∧ n ≤ l.conn.unread.length ∧ l.failed = false then
      let r := l.conn.wake e n k handlers view
      some { l with
        conn := r.conn
        handled := l.handled ++ r.message.toList
        failed := !r.outcome.isOk }
    else none

/-- The pieces handled. -/
def pieces (l : AmiLink) : List (List UInt8) := l.handled.map fun d => d.s.take d.comLen.toNat

end AmiLink

/-- The message that a buffer holds is closed by a NUL within the buffer. -/
def TstData.Closed (d : TstData) : Prop :=
  d.comLen.toNat < d.sLen.toNat ∧ d.s[d.comLen.toNat]? = some 0

-- ════════════════════════════════════════════════════════════════════════
-- One wake-up
-- ════════════════════════════════════════════════════════════════════════

/-- What a wake-up makes of a connection whose buffer holds `x`, with the bytes `u` unread. -/
inductive AmiAdvances (sLen : UInt32) (x u : List UInt8) (r : AmiResult) : Prop
  | waiting (c : UInt32) (y u' : List UInt8) (hconn : r.conn.recv = counted sLen y c)
      (hunread : r.conn.unread = u') (hmessage : r.message = none) (hok : r.outcome = .ok none)
      (hroom : y.length < sLen.toNat) (hopen : Open messageComplete y) (hbytes : y ++ u' = x ++ u)
  | handled (c : UInt32) (p u' : List UInt8) (d : TstData)
      (hconn : r.conn.recv = counted sLen [] c) (hunread : r.conn.unread = u')
      (hmessage : r.message = some d) (hd : d.s.take d.comLen.toNat = p) (hclosed : d.Closed)
      (hpiece : Piece messageComplete p) (hbytes : p ++ u' = x ++ u)

section Wake

variable {sLen c : UInt32} {x u : List UInt8}

/-- The free space but for a NUL, and the count, as `int`s. -/
theorem AmiConn.remain_eq (hx : x.length < sLen.toNat) : AmiConn.remain (counted sLen x c) =
    min (Int.bmod (sLen.toNat - x.length - 1 : Nat) (2 ^ 32)) (Int.bmod c.toNat (2 ^ 32)) := by
  have hcom : (counted sLen x c).comLen.toNat = x.length := comLen_holding hx
  have hone : (1 : UInt32).toNat = 1 := rfl
  have hfree : (sLen - (counted sLen x c).comLen - 1).toNat = sLen.toNat - x.length - 1 := by
    have hmax := sLen.toNat_lt
    rw [UInt32.toNat_sub, UInt32.toNat_sub, hcom, hone]
    omega
  rw [← hfree]
  rfl

theorem remain_le (hx : x.length < sLen.toNat) :
    x.length + (AmiConn.remain (counted sLen x c)).toNat < sLen.toNat ∧
      (AmiConn.remain (counted sLen x c)).toNat ≤ c.toNat := by
  obtain ⟨hfree, hcount⟩ := toNat_min_bmod_le (sLen.toNat - x.length - 1) c.toNat
  rw [AmiConn.remain_eq hx]
  exact ⟨by omega, hcount⟩

/-- What `tst_main` and the worker do before `ami_event()` is called. -/
theorem AmiConn.wake_eq {conn : AmiConn} {e : Events} (hrecv : conn.recv = counted sLen x c)
    (he : e.epollin = true) (n : Nat) (k : Kernel) (handlers : List (List UInt8))
    (view : ManageView) : conn.wake e n k handlers view =
      { conn with recv := counted sLen x (UInt32.ofNat n) }.amiEvent e handlers view := by
  have hin : e.input = true := by
    rw [Events.input, he]
    rfl
  have hsock : ({ sd := conn.sd, recv := some conn.recv } : TstSocket).handEvents e
      (UInt32.ofNat n) =
      { sd := conn.sd, events := e, recv := some (counted sLen x (UInt32.ofNat n)) } := by
    rw [TstSocket.handEvents, if_pos ⟨hin, rfl⟩, hrecv]
    rfl
  have hidle : (counted sLen x (UInt32.ofNat n)).reqLen = 0 := rfl
  simp only [AmiConn.wake, hsock, TstSocket.transfer, hin, if_true, hidle, ne_eq, not_true,
    if_false, Option.getD_some]

/-- What a wake-up reads, and what it does with a message that is complete then. -/
theorem AmiConn.wake_feed {conn : AmiConn} {e : Events} {n : Nat}
    (hrecv : conn.recv = counted sLen x c) (hx : x.length < sLen.toNat) (he : e.epollin = true)
    (hn : n ≤ conn.unread.length) (k : Kernel) (handlers : List (List UInt8)) (view : ManageView)
    {y u : List UInt8} (hfeed : feed messageComplete
      (AmiConn.remain (counted sLen x (UInt32.ofNat n))).toNat x conn.unread = (y, u)) :
    y.length < sLen.toNat ∧ (conn.wake e n k handlers view).conn.unread = u ∧
      if messageComplete y then
        (conn.wake e n k handlers view).conn.recv = counted sLen [] (UInt32.ofNat n) ∧
          (conn.wake e n k handlers view).message = some (counted sLen y (UInt32.ofNat n))
      else
        (conn.wake e n k handlers view).conn.recv = counted sLen y (UInt32.ofNat n) ∧
          (conn.wake e n k handlers view).message = none ∧
          (conn.wake e n k handlers view).outcome = .ok none := by
  rw [conn.wake_eq hrecv he]
  have hcount : (UInt32.ofNat n).toNat ≤ n := by
    rw [UInt32.toNat_ofNat']
    exact Nat.mod_le _ _
  obtain ⟨hroom, hle⟩ := remain_le (c := UInt32.ofNat n) hx
  have hread := readMessage_counted (c := UInt32.ofNat n) (u := conn.unread) (fun _ => true)
    (fun _ _ => rfl) hroom.le (hle.trans (hcount.trans hn))
  have hlen := length_feed_le messageComplete
    (AmiConn.remain (counted sLen x (UInt32.ofNat n))).toNat x conn.unread
  rw [hfeed] at hread hlen
  have hy : y.length < sLen.toNat := hlen.trans_lt hroom
  have hreceive : ({ conn with recv := counted sLen x (UInt32.ofNat n) } : AmiConn).receive =
      { conn with recv := counted sLen y (UInt32.ofNat n), unread := u } := by
    rw [AmiConn.receive]
    simp only [hread]
  rw [AmiConn.amiEvent, if_pos he, hreceive]
  simp only [endsMessage_counted hy]
  have hcom : (counted sLen y (UInt32.ofNat n)).comLen.toNat = y.length := comLen_holding hy
  obtain ⟨hstore, -⟩ := store_counted (c := UInt32.ofNat n) hy
  cases hdone : messageComplete y with
  | true =>
    simp only [if_true, hcom, hstore]
    exact ⟨hy, rfl, resetData_counted hy.le, trivial⟩
  | false => exact ⟨hy, rfl, rfl, rfl, rfl⟩

/-- One wake-up. -/
theorem AmiConn.wake_advances {conn : AmiConn} {e : Events} {n : Nat}
    (hrecv : conn.recv = counted sLen x c) (hx : x.length < sLen.toNat)
    (hopen : Open messageComplete x) (he : e.epollin = true) (hn : n ≤ conn.unread.length)
    (k : Kernel) (handlers : List (List UInt8)) (view : ManageView) :
    AmiAdvances sLen x conn.unread (conn.wake e n k handlers view) := by
  obtain ⟨hbytes, hend⟩ := feed_spec
    (n := (AmiConn.remain (counted sLen x (UInt32.ofNat n))).toNat) (l := conn.unread) hopen
  cases hfeed : feed messageComplete (AmiConn.remain (counted sLen x (UInt32.ofNat n))).toNat x
    conn.unread with
  | mk y u' =>
    rw [hfeed] at hbytes hend
    obtain ⟨hy, hunread, hwake⟩ := conn.wake_feed hrecv hx he hn k handlers view hfeed
    rcases hend with hpiece | ⟨hstill, -⟩
    · have hcom : (counted sLen y (UInt32.ofNat n)).comLen.toNat = y.length := comLen_holding hy
      obtain ⟨-, hnul⟩ := store_counted (c := UInt32.ofNat n) hy
      rw [if_pos hpiece.1] at hwake
      obtain ⟨hempty, hmessage⟩ := hwake
      refine .handled (UInt32.ofNat n) y u' _ hempty hunread hmessage ?_ ?_ hpiece hbytes
      · rw [hcom]
        exact List.take_left
      · rw [TstData.Closed, hcom]
        exact ⟨hy, hnul⟩
    · rw [hstill.done_eq, if_neg Bool.false_ne_true] at hwake
      obtain ⟨hholds, hmessage, hok⟩ := hwake
      exact .waiting _ y u' hholds hunread hmessage hok hy hstill hbytes

end Wake

-- ════════════════════════════════════════════════════════════════════════
-- Runs
-- ════════════════════════════════════════════════════════════════════════

/-- The messages handled, what the buffer holds, and what is to come make up the stream. -/
structure AmiLink.Follows (sLen : UInt32) (stream : List UInt8) (l : AmiLink) : Prop where
  pieces : ∀ p ∈ l.pieces, Piece messageComplete p
  closed : ∀ d ∈ l.handled, d.Closed
  bytes : ∃ (x : List UInt8) (c : UInt32), l.conn.recv = counted sLen x c ∧
    x.length < sLen.toNat ∧ Open messageComplete x ∧
    l.pieces.flatten ++ (x ++ (l.conn.unread ++ l.future)) = stream

/-- One action. -/
theorem AmiLink.Follows.step {sLen : UInt32} {stream : List UInt8}
    {handlers : List (List UInt8)} {l l' : AmiLink} {a : AmiAction} (h : l.Follows sLen stream)
    (hstep : l.step handlers a = some l') : l'.Follows sLen stream := by
  obtain ⟨x, c, hrecv, hx, hopen, hbytes⟩ := h.bytes
  cases a with
  | arrive n =>
    obtain rfl := Option.some.inj hstep
    refine ⟨h.pieces, h.closed, x, c, hrecv, hx, hopen, ?_⟩
    rw [← hbytes]
    congr 2
    change l.conn.unread ++ l.future.take n ++ l.future.drop n = _
    rw [List.append_assoc, List.take_append_drop]
  | wake e n k view =>
    rw [AmiLink.step] at hstep
    split at hstep
    · next hen =>
      obtain ⟨he, hn, -⟩ := hen
      obtain rfl := Option.some.inj hstep
      cases AmiConn.wake_advances hrecv hx hopen he hn k handlers view with
      | waiting c' y u' hconn hunread hmessage _ hroom hstill hmove =>
        have hsame : l.handled ++ (l.conn.wake e n k handlers view).message.toList = l.handled := by
          rw [hmessage, Option.toList_none, List.append_nil]
        refine ⟨?_, ?_, y, c', hconn, hroom, hstill, ?_⟩
        · simp only [AmiLink.pieces, hsame]
          exact h.pieces
        · simp only [hsame]
          exact h.closed
        · simp only [AmiLink.pieces, hsame, hunread]
          rw [← List.append_assoc y, hmove, List.append_assoc]
          exact hbytes
      | handled c' p u' d hconn hunread hmessage hd hclosed hpiece hmove =>
        have hsame : l.handled ++ (l.conn.wake e n k handlers view).message.toList =
            l.handled ++ [d] := by
          rw [hmessage, Option.toList_some]
        refine ⟨?_, ?_, [], c', hconn, (Nat.zero_le _).trans_lt hx, .nil rfl, ?_⟩
        · simp only [AmiLink.pieces, hsame, List.map_append, List.map_singleton, hd]
          exact List.forall_mem_append.mpr ⟨h.pieces, List.forall_mem_singleton.mpr hpiece⟩
        · simp only [hsame]
          exact List.forall_mem_append.mpr ⟨h.closed, List.forall_mem_singleton.mpr hclosed⟩
        · simp only [AmiLink.pieces, hsame, List.map_append, List.map_singleton, hd, hunread,
            List.flatten_append, List.flatten_singleton, List.nil_append]
          rw [List.append_assoc, ← List.append_assoc p, hmove, List.append_assoc]
          exact hbytes
    · exact absurd hstep (by simp)

/-- A run. -/
theorem AmiLink.Follows.run {sd : Nat} {sLen : UInt32} {stream : List UInt8}
    {handlers : List (List UInt8)} {as : List AmiAction} {l : AmiLink} (hsLen : 1 < sLen)
    (h : Execution.run (AmiLink.step handlers) (.start sd sLen stream) as = some l) :
    l.Follows sLen stream := by
  have hpos : 0 < sLen.toNat := by
    have hlt := UInt32.lt_iff_toNat_lt.mp hsLen
    omega
  have hinit : (AmiLink.start sd sLen stream).Follows sLen stream :=
    ⟨List.forall_mem_nil _, List.forall_mem_nil _, [], 0, rfl, hpos, .nil rfl, rfl⟩
  exact (Exec.of_run h).invariant (fun _ _ _ _ hl hstep => hl.step hstep) hinit

/-- In every run the messages handled are, in order, the first pieces of the stream; each of
them is closed by a NUL in the receive buffer; and every byte of the stream is in one of
them, in the buffer, or still to be read. -/
theorem ami_framing (sd : Nat) (sLen : UInt32) (stream : List UInt8)
    (handlers : List (List UInt8)) (as : List AmiAction) (l : AmiLink) (hsLen : 1 < sLen)
    (h : run (AmiLink.step handlers) (.start sd sLen stream) as = some l) :
    l.pieces <+: cut messageComplete [] stream ∧ (∀ d ∈ l.handled, d.Closed) ∧
      l.pieces.flatten ++ (l.conn.recv.s.take l.conn.recv.comLen.toNat ++
        (l.conn.unread ++ l.future)) = stream := by
  obtain ⟨hpieces, hclosed, x, c, hrecv, hx, -, hbytes⟩ := AmiLink.Follows.run hsLen h
  refine ⟨?_, hclosed, ?_⟩
  · rw [← hbytes, cut_flatten rfl hpieces]
    exact List.prefix_append ..
  · have hcom : l.conn.recv.comLen.toNat = x.length := by
      rw [hrecv]
      exact comLen_holding hx
    have htake : l.conn.recv.s.take x.length = x := by
      rw [hrecv]
      exact List.take_left
    rw [hcom, htake]
    exact hbytes

/-- `a: b`, an empty line, and the first byte of another message. -/
def shortStream : List UInt8 := [97, 58, 32, 98, 13, 10, 13, 10, 99]

/-- It is cut between two bytes of the line ends. -/
def shortRun : List AmiAction :=
  let k : Kernel := ⟨none, fun _ => none, fun _ => none⟩
  let view : ManageView := ⟨false, false, {}, 0, 0⟩
  [.arrive 6, .wake .base 6 k view, .arrive 3, .wake .base 3 k view]

theorem ami_framing_short : ∃ l, run (AmiLink.step []) (.start 5 64 shortStream) shortRun = some l ∧
    l.pieces = [[97, 58, 32, 98, 13, 10, 13, 10]] ∧ l.pieces <+: cut messageComplete [] shortStream := by
  have hrun : (run (AmiLink.step []) (.start 5 64 shortStream) shortRun).any
      (fun l => l.pieces = [[97, 58, 32, 98, 13, 10, 13, 10]]) = true := by decide +kernel
  obtain ⟨l, hl, hpieces⟩ := (Option.any_eq_true ..).mp hrun
  exact ⟨l, hl, of_decide_eq_true hpieces, (ami_framing 5 64 _ _ _ l (by decide) hl).1⟩

end Tst
