import Mathlib.Logic.Relation
import Tst.Lib.CString
import Tst.WebSocket.Payload

/-!
# Where a frame is stored

`websocket()` reads a header to where `com_len` is, a payload to the front of the buffer, and
leaves the rest to the worker. Here every store is checked against `s_len`, and more bytes may
arrive before each `read()` of a call.

## Main definitions

- `WsRecv.websocketIn`, `WsRecv.wakeIn` — a call and a wake-up whose stores are checked
- `WsRecv.Bounded` — what keeps the stores inside the buffer

## Main results

- `wakeIn_bounded` — no store of a wake-up is outside the buffer, and a declared length above the
  limit is refused
- `receive_in_bounds` — the same in every state that can be reached
-/

namespace Tst

open Bytes ByteOrder CString

/-- What arrives while a call begins a frame: before its second, third and last `read()`. -/
structure Between where
  second : List UInt8 := []
  third : List UInt8 := []
  last : List UInt8 := []

/-- One wake-up: what has arrived since the last one and arrives during the call, the event bits,
the bytes that `realloc` adds, and the user function. -/
structure WsWake where
  arrived : List UInt8
  between : Between := {}
  events : Events := { epollin := true }
  junk : Nat → UInt8 := fun _ => 0
  func : Option WebsocketFunc := none

/-- `n` bytes are stored at `s + p`: below `s_len`, which is no more than what is allocated. -/
def TstData.inside (d : TstData) (p n : Nat) : Except Fault Unit :=
  if n = 0 ∨ p + n ≤ d.sLen.toNat ∧ d.sLen.toNat ≤ d.s.length then .ok () else .error .bounds

namespace WsRecv

def arrive (w : WsRecv) (bs : List UInt8) : WsRecv := { w with unread := w.unread ++ bs }

/-- `readFirst`, checked. -/
def readFirstIn (w : WsRecv) (n : Nat) : Except Fault WsRecv := do
  w.recv.inside 0 (w.unread.take n).length
  return w.readFirst n

/-- `readMore`, checked. -/
def readMoreIn (w : WsRecv) (n : Nat) : Except Fault WsRecv := do
  w.recv.inside w.recv.comLen.toNat (w.unread.take n).length
  return w.readMore n

/-- `readMask`, checked. -/
def readMaskIn (w : WsRecv) : Except Fault WsRecv :=
  if w.info.isMasked then w.readMoreIn 4 else .ok w

/-- `readStart`, checked. -/
def readStartIn (w : WsRecv) : Except Fault WsRecv := do
  let w ← w.readFirstIn 2
  return { w with info := w.info.start (w.recv.s.getD 0 0) (w.recv.s.getD 1 0) }

/-- `readLen`, checked. -/
def readLenIn (w : WsRecv) (b : Between) : Except Fault (WsRecv × Nat) :=
  if w.info.dataLen < 126 then do
    return (← (w.arrive b.second).readMaskIn, 2)
  else if w.info.dataLen = 126 then do
    let w ← (w.arrive b.second).readMoreIn 2
    return (← ((w.setLen (w.ntoh 2 2)).arrive b.third).readMaskIn, 4)
  else do
    let w ← (w.arrive b.second).readMoreIn 8
    return (← ((w.setLen (w.ntoh 2 4 * 2 ^ 32 + w.ntoh 6 4)).arrive b.third).readMaskIn, 10)

/-- The header of a frame. -/
def headerIn (w : WsRecv) (b : Between) : Except Fault (WsRecv × Nat) := do
  (← w.readStartIn).readLenIn b

/-- `finish`, checked: the loop that unmasks stores into `data[0 .. data_len)`. -/
def finishIn (w : WsRecv) (func : Option WebsocketFunc) : Except Fault WsResult := do
  w.recv.inside 0 (if w.info.isMasked then w.info.dataLen else 0)
  return w.finish func

/-- `websocket()`, checked. -/
def websocketIn (w : WsRecv) (k : WsWake) : Except Fault WsResult :=
  if w.info.step = 0 then do
    let (w, mPos) ← w.headerIn k.between
    if mPos = 10 ∧ w.info.dataLen > 10485760 then
      .ok { conn := w, next := .disconnect, sent := wsWritedisconnect }
    else do
      let w ← ((w.openPayload k.junk mPos).arrive k.between.last).readFirstIn w.info.dataLen
      if w.recv.comLen.toNat < w.info.dataLen then
        .ok { conn := w.armPayload, next := .suspend }
      else w.finishIn k.func
  else w.finishIn k.func

/-- The worker's transfer, checked, and what it asks for. -/
def transferIn (w : WsRecv) (e : Events) : Except Fault (WsRecv × TstStat) := do
  let sock : TstSocket := { sd := w.sd, recv := some w.recv }
  let r := (sock.handEvents e (UInt32.ofNat w.unread.length)).transfer w.kernel
  w.recv.inside w.recv.pos r.bytes.length
  return ({ w with
    recv := r.sock.recv.getD w.recv
    unread := w.unread.drop r.bytes.length }, r.next)

/-- `wake`, checked. -/
def wakeIn (w : WsRecv) (k : WsWake) : Except Fault WsResult := do
  let (w, next) ← (w.arrive k.arrived).transferIn k.events
  if next = .run then w.websocketIn k else .ok { conn := w, next }

/-- The wake-up is for input, and a byte is there. -/
def Wakes (w : WsRecv) (k : WsWake) : Prop :=
  k.events.input = true ∧ w.unread ++ k.arrived ≠ []

/-- One wake-up of the connection, after which it is kept. -/
def Received (w w' : WsRecv) : Prop :=
  ∃ k r, w.Wakes k ∧ w.wakeIn k = .ok r ∧ r.next ≠ .disconnect ∧ r.conn = w'

end WsRecv

theorem TstData.inside_of_le {d : TstData} {p n : Nat} (h : p + n ≤ d.sLen.toNat) (hwf : d.WF) :
    d.inside p n = .ok () :=
  if_pos (.inr ⟨h, hwf⟩)

-- ════════════════════════════════════════════════════════════════════════
-- The checked call is the call
-- ════════════════════════════════════════════════════════════════════════

namespace WsRecv

section Unchecked

variable {w w' : WsRecv} {r : WsResult} {k : WsWake} {n m : Nat}

@[simp] theorem arrive_nil (w : WsRecv) : w.arrive [] = w := by
  rw [arrive, List.append_nil]

theorem readFirst_of_ok (h : w.readFirstIn n = .ok w') : w' = w.readFirst n := by
  obtain ⟨_, -, h⟩ := bind_eq_ok.mp h
  exact (Except.ok.inj h).symm

theorem readMore_of_ok (h : w.readMoreIn n = .ok w') : w' = w.readMore n := by
  obtain ⟨_, -, h⟩ := bind_eq_ok.mp h
  exact (Except.ok.inj h).symm

theorem readMask_of_ok (h : w.readMaskIn = .ok w') : w' = w.readMask := by
  rw [readMaskIn] at h
  rw [readMask]
  split at h
  · next hmasked => rw [if_pos hmasked, readMore_of_ok h]
  · next hmasked => rw [if_neg hmasked, Except.ok.inj h]

theorem header_of_ok (h : w.headerIn {} = .ok (w', m)) : (w', m) = w.readStart.readLen := by
  obtain ⟨v, hstart, hlen⟩ := bind_eq_ok.mp h
  obtain ⟨u, hfirst, hstart⟩ := bind_eq_ok.mp hstart
  obtain rfl := readFirst_of_ok hfirst
  obtain rfl : w.readStart = v := Except.ok.inj hstart
  rw [readLenIn] at hlen
  rw [readLen]
  simp only [arrive_nil] at hlen
  split at hlen
  · next hshort =>
    obtain ⟨v, hmask, hv⟩ := bind_eq_ok.mp hlen
    rw [if_pos hshort, ← readMask_of_ok hmask]
    exact (Except.ok.inj hv).symm
  · next hlong =>
    rw [if_neg hlong]
    split at hlen
    · next hmedium =>
      obtain ⟨u, hmore, hlen⟩ := bind_eq_ok.mp hlen
      obtain ⟨v, hmask, hv⟩ := bind_eq_ok.mp hlen
      obtain rfl := readMore_of_ok hmore
      rw [if_pos hmedium, ← Except.ok.inj hv, readMask_of_ok hmask]
    · next hmedium =>
      obtain ⟨u, hmore, hlen⟩ := bind_eq_ok.mp hlen
      obtain ⟨v, hmask, hv⟩ := bind_eq_ok.mp hlen
      obtain rfl := readMore_of_ok hmore
      rw [if_neg hmedium, ← Except.ok.inj hv, readMask_of_ok hmask]

theorem finish_of_ok {func : Option WebsocketFunc} (h : w.finishIn func = .ok r) :
    r = w.finish func := by
  obtain ⟨_, -, h⟩ := bind_eq_ok.mp h
  exact (Except.ok.inj h).symm

theorem websocket_of_ok (hk : k.between = {}) (h : w.websocketIn k = .ok r) :
    r = w.websocket k.junk k.func := by
  rw [websocketIn, hk] at h
  rw [websocket]
  split at h
  · next hstep =>
    obtain ⟨⟨v, mPos⟩, hheader, h⟩ := bind_eq_ok.mp h
    rw [if_pos hstep, ← header_of_ok hheader]
    dsimp only at h ⊢
    split at h
    · next hbig => rw [if_pos hbig, Except.ok.inj h]
    · next hbig =>
      obtain ⟨u, hfirst, h⟩ := bind_eq_ok.mp h
      rw [arrive_nil] at hfirst
      rw [if_neg hbig, ← readFirst_of_ok hfirst]
      split at h
      · next hshort => rw [if_pos hshort, Except.ok.inj h]
      · next hshort => rw [if_neg hshort, finish_of_ok h]
  · next hstep => rw [if_neg hstep, finish_of_ok h]

/-- Without a fault, and when nothing arrives during the call, the checked wake-up is the
wake-up. -/
theorem wake_of_ok (hk : k.between = {}) (h : w.wakeIn k = .ok r) :
    r = (w.arrive k.arrived).wake k.junk k.func k.events := by
  obtain ⟨⟨v, next⟩, htransfer, h⟩ := bind_eq_ok.mp h
  obtain ⟨_, -, htransfer⟩ := bind_eq_ok.mp htransfer
  obtain ⟨rfl, rfl⟩ := Prod.mk.inj (Except.ok.inj htransfer)
  rw [wake]
  dsimp only at h ⊢
  split at h
  · next hrun => rw [if_pos hrun, websocket_of_ok hk h]
  · next hrun => rw [if_neg hrun, Except.ok.inj h]

end Unchecked

-- ════════════════════════════════════════════════════════════════════════
-- The header
-- ════════════════════════════════════════════════════════════════════════

/-- The buffer is as large as it was, and the frame is in the same state. -/
structure Kept (w w' : WsRecv) : Prop where
  sLen : w'.recv.sLen = w.recv.sLen
  length : w'.recv.s.length = w.recv.s.length
  step : w'.info.step = w.info.step

section Header

variable {w w' w'' : WsRecv} {b : Between} {n : Nat}

theorem Kept.trans (h : Kept w w') (h' : Kept w' w'') : Kept w w'' where
  sLen := h'.sLen.trans h.sLen
  length := h'.length.trans h.length
  step := h'.step.trans h.step

theorem Kept.wf (h : Kept w w') (hwf : w.recv.WF) : w'.recv.WF := by
  rw [TstData.WF, h.sLen, h.length]
  exact hwf

theorem kept_read (w : WsRecv) (p n : Nat) : Kept w (w.read p n).1 := by
  rw [read]
  split
  · exact ⟨rfl, rfl, rfl⟩
  · exact ⟨rfl, length_splice .., rfl⟩

theorem kept_readFirst (w : WsRecv) (n : Nat) : Kept w (w.readFirst n) :=
  ⟨(kept_read w 0 n).sLen, (kept_read w 0 n).length, (kept_read w 0 n).step⟩

theorem kept_readMore (w : WsRecv) (n : Nat) : Kept w (w.readMore n) :=
  have h := kept_read w w.recv.comLen.toNat n
  ⟨h.sLen, h.length, h.step⟩

theorem length_take_unread_le (w : WsRecv) (n : Nat) : (w.unread.take n).length ≤ n :=
  List.length_take_le ..

theorem readFirstIn_eq (hwf : w.recv.WF) (h : n ≤ w.recv.sLen.toNat) :
    w.readFirstIn n = .ok (w.readFirst n) := by
  have hlen := w.length_take_unread_le n
  rw [readFirstIn, TstData.inside_of_le (by omega) hwf]
  rfl

theorem readMoreIn_eq (hwf : w.recv.WF) (h : w.recv.comLen.toNat + n ≤ w.recv.sLen.toNat) :
    w.readMoreIn n = .ok (w.readMore n) := by
  have hlen := w.length_take_unread_le n
  rw [readMoreIn, TstData.inside_of_le (by omega) hwf]
  rfl

/-- Behind a byte that has been read, `com_len` does not go below zero. -/
theorem addResult_le_of_pos {c : UInt32} {rc : Option Nat} (hpos : 0 < c.toNat)
    (hlt : c.toNat + n < 2 ^ 32) (hrc : ∀ k, rc = some k → k ≤ n) :
    (addResult c rc).toNat ≤ c.toNat + n := by
  cases rc with
  | none =>
    have hc := c.toNat_lt
    simp only [addResult, UInt32.toNat_sub, UInt32.reduceToNat]
    omega
  | some k =>
    have hk := hrc k rfl
    rw [toNat_addResult_some (by omega)]
    omega

theorem read_result (w : WsRecv) (p n : Nat) : ∀ k, (w.read p n).2 = some k → k ≤ n := by
  intro k hk
  rw [read] at hk
  split at hk
  · exact absurd hk (by simp)
  · exact Option.some.inj hk ▸ w.length_take_unread_le n

theorem comLen_readMore_le (hpos : 0 < w.recv.comLen.toNat)
    (hlt : w.recv.comLen.toNat + n < 2 ^ 32) :
    (w.readMore n).recv.comLen.toNat ≤ w.recv.comLen.toNat + n :=
  addResult_le_of_pos hpos hlt (read_result w _ n)

theorem comLen_readStart (hu : w.unread ≠ []) :
    0 < w.readStart.recv.comLen.toNat ∧ w.readStart.recv.comLen.toNat ≤ 2 := by
  have hlen := w.length_take_unread_le 2
  have hpos : 0 < (w.unread.take 2).length := by
    rw [List.length_take, Nat.lt_min]
    exact ⟨by decide, List.length_pos_iff.mpr hu⟩
  have hcom : w.readStart.recv.comLen = addResult 0 (some (w.unread.take 2).length) := by
    simp [readStart, readFirst, read, hu]
  have hzero : (0 : UInt32).toNat = 0 := rfl
  rw [hcom, toNat_addResult_some (by omega)]
  omega

theorem kept_arrive (w : WsRecv) (bs : List UInt8) : Kept w (w.arrive bs) := ⟨rfl, rfl, rfl⟩

theorem kept_setLen (w : WsRecv) (n : Nat) : Kept w (w.setLen n) := ⟨rfl, rfl, rfl⟩

theorem kept_readStart (w : WsRecv) : Kept w w.readStart :=
  ⟨(kept_readFirst w 2).sLen, (kept_readFirst w 2).length, (kept_readFirst w 2).step⟩

/-- The mask is read where there is room for it. -/
theorem readMaskIn_ok (hwf : w.recv.WF) (h : w.recv.comLen.toNat + 4 ≤ w.recv.sLen.toNat) :
    ∃ w', w.readMaskIn = .ok w' ∧ Kept w w' ∧ w'.info = w.info := by
  rw [readMaskIn]
  split
  · exact ⟨_, readMoreIn_eq hwf h, kept_readMore w 4, readMore_info w 4⟩
  · exact ⟨w, rfl, ⟨rfl, rfl, rfl⟩, rfl⟩

theorem ntoh_lt (w : WsRecv) (p : Nat) : w.ntoh p 2 < 2 ^ 16 := by
  have hlen : (window w.recv.s p 2).length ≤ 2 := List.length_take_le ..
  exact Nat.lt_of_lt_of_le (beNat_lt _) (Nat.pow_le_pow_right (by decide) hlen)

/-- The field of an extended length, and room for the mask behind it. -/
theorem readMoreIn_ok (hn : n ≤ 8) (hwf : w.recv.WF) (hroom : 14 ≤ w.recv.sLen.toNat)
    (hpos : 0 < w.recv.comLen.toNat) (hle : w.recv.comLen.toNat ≤ 2) :
    w.readMoreIn n = .ok (w.readMore n) ∧
      (w.readMore n).recv.comLen.toNat + 4 ≤ (w.readMore n).recv.sLen.toNat := by
  have hcom := comLen_readMore_le (n := n) hpos (by omega)
  rw [(kept_readMore w n).sLen]
  exact ⟨readMoreIn_eq hwf (by omega), by omega⟩

/-- The length field and the mask, behind one or two bytes. -/
theorem readLenIn_ok (hwf : w.recv.WF) (hroom : 14 ≤ w.recv.sLen.toNat) (hpos : 0 < w.recv.comLen.toNat)
    (hle : w.recv.comLen.toNat ≤ 2) :
    ∃ h mPos, w.readLenIn b = .ok (h, mPos) ∧ Kept w h ∧
      (10485760 < h.info.dataLen → mPos = 10) := by
  have hkept := kept_arrive w b.second
  rw [readLenIn]
  split
  · next hshort =>
    obtain ⟨h, hmask, hk, hinfo⟩ := readMaskIn_ok (w := w.arrive b.second) hwf (by
      rw [hkept.sLen]
      exact Nat.le_trans (Nat.add_le_add_right hle 4) (Nat.le_trans (by decide) hroom))
    refine ⟨h, 2, by rw [hmask]; rfl, hkept.trans hk, fun hbig => ?_⟩
    rw [hinfo] at hbig
    exact absurd (Nat.lt_trans hbig hshort) (by decide)
  · split
    · obtain ⟨hread, hbehind⟩ := readMoreIn_ok (w := w.arrive b.second) (n := 2) (by decide)
        hwf (hkept.sLen ▸ hroom) hpos hle
      obtain ⟨h, hmask, hk, hinfo⟩ := readMaskIn_ok
        (w := (((w.arrive b.second).readMore 2).setLen
          (((w.arrive b.second).readMore 2).ntoh 2 2)).arrive b.third)
        ((kept_readMore (w.arrive b.second) 2).wf hwf) hbehind
      refine ⟨h, 4, by rw [hread, ok_bind, hmask]; rfl, ?_, fun hbig => ?_⟩
      · exact ((hkept.trans (kept_readMore _ 2)).trans (kept_setLen _ _)).trans
          ((kept_arrive _ _).trans hk)
      · have hlt := ((w.arrive b.second).readMore 2).ntoh_lt 2
        have hlen : h.info.dataLen = ((w.arrive b.second).readMore 2).ntoh 2 2 := by
          rw [hinfo]
          rfl
        omega
    · obtain ⟨hread, hbehind⟩ := readMoreIn_ok (w := w.arrive b.second) (n := 8) (by decide)
        hwf (hkept.sLen ▸ hroom) hpos hle
      obtain ⟨h, hmask, hk, -⟩ := readMaskIn_ok
        (w := (((w.arrive b.second).readMore 8).setLen
          (((w.arrive b.second).readMore 8).ntoh 2 4 * 2 ^ 32 +
            ((w.arrive b.second).readMore 8).ntoh 6 4)).arrive b.third)
        ((kept_readMore (w.arrive b.second) 8).wf hwf) hbehind
      refine ⟨h, 10, by rw [hread, ok_bind, hmask]; rfl, ?_, fun _ => rfl⟩
      exact ((hkept.trans (kept_readMore _ 8)).trans (kept_setLen _ _)).trans
        ((kept_arrive _ _).trans hk)

/-- A header is read inside the buffer. Only the long form can declare more than the limit. -/
theorem headerIn_ok (hwf : w.recv.WF) (hroom : 14 ≤ w.recv.sLen.toNat) (hu : w.unread ≠ []) :
    ∃ h mPos, w.headerIn b = .ok (h, mPos) ∧ Kept w h ∧
      (10485760 < h.info.dataLen → mPos = 10) := by
  obtain ⟨hpos, hle⟩ := comLen_readStart hu
  have hstart : w.readStartIn = .ok w.readStart := by
    rw [readStartIn, readFirstIn_eq hwf (by omega)]
    rfl
  have hkept := kept_readStart w
  obtain ⟨h, mPos, hlen, hk, hlimit⟩ := readLenIn_ok (b := b) (hkept.wf hwf)
    (hkept.sLen ▸ hroom) hpos hle
  exact ⟨h, mPos, by rw [headerIn, hstart, ok_bind, hlen], hkept.trans hk, hlimit⟩

theorem kept_readMask (w : WsRecv) : Kept w w.readMask := by
  rw [readMask]
  split
  · exact kept_readMore w 4
  · exact ⟨rfl, rfl, rfl⟩

theorem kept_readLen (w : WsRecv) : Kept w w.readLen.1 := by
  have hextended (n v : Nat) : Kept w ((w.readMore n).setLen v).readMask :=
    ((kept_readMore w n).trans (kept_setLen _ v)).trans (kept_readMask _)
  rw [readLen]
  split
  · exact kept_readMask w
  · split
    · exact hextended 2 _
    · exact hextended 8 _

/-- Only the long form can declare more than the limit. -/
theorem readLen_limit (w : WsRecv) (h : 10485760 < w.readLen.1.info.dataLen) :
    w.readLen.2 = 10 := by
  rw [readLen] at h ⊢
  split at h
  · next hshort =>
    rw [readMask_info] at h
    omega
  · split at h
    · rw [readMask_info] at h
      have hlt := (w.readMore 2).ntoh_lt 2
      have hle : 10485760 < (w.readMore 2).ntoh 2 2 := h
      omega
    · next hlong hmedium => rw [if_neg hlong, if_neg hmedium]

end Header

-- ════════════════════════════════════════════════════════════════════════
-- A call
-- ════════════════════════════════════════════════════════════════════════

/-- What keeps the stores inside the buffer, between two wake-ups: there is room for a header,
for the payload that has been declared, and for what the worker is to fetch of it. -/
structure Bounded (w : WsRecv) : Prop where
  wf : w.recv.WF
  room : 14 ≤ w.recv.sLen.toNat
  idle : w.info.step = 0 → ¬w.recv.Pending
  payload : w.info.step ≠ 0 → w.info.dataLen ≤ w.recv.sLen.toNat
  fetch : w.recv.Pending → w.recv.reqPos.toNat + w.recv.reqLen.toNat ≤ w.recv.sLen.toNat

/-- The length is refused, and the buffer has not been changed in size. -/
structure Refused (w : WsRecv) (r : WsResult) : Prop where
  next : r.next = .disconnect
  sLen : r.conn.recv.sLen = w.recv.sLen
  length : r.conn.recv.s.length = w.recv.s.length

/-- What a call leaves. -/
structure CallBounded (r : WsResult) : Prop where
  wf : r.conn.recv.WF
  bounded : r.next ≠ .disconnect → Bounded r.conn

section Call

variable {w h : WsRecv} {k : WsWake} {e : Events} {mPos : Nat}

theorem Ready.bounded (hw : w.Ready) : Bounded w where
  wf := hw.wf
  room := hw.room
  idle := fun _ => hw.idle
  payload := fun hstep => absurd hw.step hstep
  fetch := fun hpend => absurd hpend hw.idle

theorem Bounded.reset (hw : Bounded w) : Bounded w.reset where
  wf := resetData_wf hw.wf
  room := hw.room
  idle := fun _ hpend => UInt32.lt_irrefl 0 hpend
  payload := fun hstep => absurd rfl hstep
  fetch := fun hpend => absurd hpend (UInt32.lt_irrefl 0)

theorem finish_conn (w : WsRecv) (func : Option WebsocketFunc) :
    (w.finish func).conn = w.unmasked.reset ∨ (w.finish func).conn = w.unmasked := by
  cases func with
  | none => exact .inl rfl
  | some f =>
    by_cases hrun : f ⟨w.unmasked.info, window w.unmasked.recv.s
        (w.unmasked.info.data.getD 0) w.unmasked.info.dataLen⟩ = .run
    · exact .inr (if_neg (not_not_intro hrun))
    · exact .inl (if_pos hrun)

theorem Bounded.unmasked (hw : Bounded w) : Bounded w.unmasked := by
  have hwf := unmasked_wf hw.wf
  rw [WsRecv.unmasked] at hwf ⊢
  split at hwf
  · next hmasked =>
    rw [if_pos hmasked]
    exact ⟨hwf, hw.room, hw.idle, hw.payload, hw.fetch⟩
  · next hmasked =>
    rw [if_neg hmasked]
    exact hw

/-- The payload is unmasked inside the buffer. -/
theorem Bounded.finishIn (hw : Bounded w) (hstep : w.info.step ≠ 0)
    (func : Option WebsocketFunc) : ∃ r, w.finishIn func = .ok r ∧ Bounded r.conn := by
  have hinside : w.recv.inside 0 (if w.info.isMasked then w.info.dataLen else 0) = .ok () := by
    refine TstData.inside_of_le ?_ hw.wf
    split
    · rw [Nat.zero_add]
      exact hw.payload hstep
    · exact Nat.zero_le _
  refine ⟨w.finish func, by rw [WsRecv.finishIn, hinside]; rfl, ?_⟩
  obtain hconn | hconn := w.finish_conn func
  · rw [hconn]
    exact hw.unmasked.reset
  · rw [hconn]
    exact hw.unmasked

/-- After the header there is room for the payload. -/
theorem bounded_openPayload (hwf : h.recv.WF) (hroom : 14 ≤ h.recv.sLen.toNat)
    (hlimit : h.info.dataLen ≤ 10485760) (junk : Nat → UInt8) (mPos : Nat) :
    Bounded (h.openPayload junk mPos) ∧ (h.openPayload junk mPos).info.step = 1 ∧
      (h.openPayload junk mPos).info.dataLen = h.info.dataLen := by
  have hsmall : h.info.dataLen < 2 ^ 32 := Nat.lt_of_le_of_lt hlimit (by decide)
  obtain ⟨hgrown, hlen⟩ := grow_wf h.recv junk hsmall
  refine ⟨⟨?_, ?_, fun _ hpend => UInt32.lt_irrefl 0 hpend, fun _ => ?_,
    fun hpend => absurd hpend (UInt32.lt_irrefl 0)⟩, rfl, rfl⟩
  · refine resetData_wf ?_
    split
    · exact hgrown
    · exact hwf
  · simp only [openPayload, TstData.resetData_sLen]
    split
    · next hbig => omega
    · exact hroom
  · simp only [openPayload, TstData.resetData_sLen]
    split
    · exact Nat.le_of_eq hlen.symm
    · next hfits => exact Nat.not_lt.mp hfits

/-- What is left of the payload is left to the worker, inside the buffer. -/
theorem Bounded.armPayload (hw : Bounded w) (hstep : w.info.step ≠ 0)
    (hshort : w.recv.comLen.toNat < w.info.dataLen) : Bounded w.armPayload where
  wf := hw.wf
  room := hw.room
  idle := fun hzero => absurd hzero hstep
  payload := hw.payload
  fetch := by
    intro _
    have hfits := hw.payload hstep
    have hlt := w.recv.sLen.toNat_lt
    have hlen : (UInt32.ofNat (w.info.dataLen - w.recv.comLen.toNat)).toNat =
        w.info.dataLen - w.recv.comLen.toNat := by
      rw [UInt32.toNat_ofNat', Nat.mod_eq_of_lt (by omega)]
    simp only [WsRecv.armPayload, hlen]
    omega

theorem readFirst_info (w : WsRecv) (n : Nat) : (w.readFirst n).info = w.info := read_info w 0 n

theorem readFirst_reqLen (w : WsRecv) (n : Nat) : (w.readFirst n).recv.reqLen = w.recv.reqLen := by
  have hread : (w.read 0 n).1.recv.reqLen = w.recv.reqLen := by
    rw [read]
    split <;> rfl
  exact hread

/-- The first part of the payload is read to the front of the buffer. -/
theorem Bounded.readFirst (hw : Bounded w) (hreq : w.recv.reqLen = 0) (n : Nat) :
    Bounded (w.readFirst n) := by
  have hkept := kept_readFirst w n
  have hidle : ¬(w.readFirst n).recv.Pending := by
    rw [TstData.Pending, readFirst_reqLen, hreq]
    exact UInt32.not_lt_zero
  refine ⟨hkept.wf hw.wf, hkept.sLen ▸ hw.room, fun _ => hidle, ?_,
    fun hpend => absurd hpend hidle⟩
  rw [readFirst_info, hkept.sLen]
  exact hw.payload

/-- A call of `websocket()` when the worker has nothing to fetch. -/
theorem Bounded.websocketIn (hw : Bounded w) (hu : w.info.step = 0 → w.unread ≠ []) :
    ∃ r, w.websocketIn k = .ok r ∧ CallBounded r ∧
      (w.info.step = 0 → ∀ h mPos, w.headerIn k.between = .ok (h, mPos) →
        10485760 < h.info.dataLen → Refused w r) := by
  rw [WsRecv.websocketIn]
  split
  · next hstep =>
    obtain ⟨h, mPos, hheader, hkept, hlimit⟩ := headerIn_ok (b := k.between) hw.wf hw.room (hu hstep)
    have hwf : h.recv.WF := hkept.wf hw.wf
    rw [hheader, ok_bind]
    dsimp only
    split
    · exact ⟨_, rfl, ⟨hwf, fun hnext => absurd rfl hnext⟩,
        fun _ _ _ _ _ => ⟨rfl, hkept.sLen, hkept.length⟩⟩
    · next hsmall =>
      have hle : h.info.dataLen ≤ 10485760 := by
        by_contra hbig
        exact hsmall ⟨hlimit (Nat.not_le.mp hbig), Nat.not_le.mp hbig⟩
      -- the length that has been read is the one that is declared
      have hnone (r : WsResult) : ∀ h' mPos', Except.ok (ε := Fault) (h, mPos) = .ok (h', mPos') →
          10485760 < h'.info.dataLen → Refused w r := by
        intro h' mPos' heq hbig
        obtain ⟨rfl, -⟩ := Prod.mk.inj (Except.ok.inj heq)
        exact absurd hbig (Nat.not_lt.mpr hle)
      obtain ⟨hopen, hone, hlen⟩ := bounded_openPayload hwf (hkept.sLen ▸ hw.room) hle k.junk mPos
      have hready : Bounded ((h.openPayload k.junk mPos).arrive k.between.last) :=
        ⟨hopen.wf, hopen.room, hopen.idle, hopen.payload, hopen.fetch⟩
      have hread := hready.readFirst rfl h.info.dataLen
      have hstep' : ((h.openPayload k.junk mPos).arrive k.between.last).info.step ≠ 0 := by
        rw [arrive, hone]
        decide
      have hfits : h.info.dataLen ≤
          ((h.openPayload k.junk mPos).arrive k.between.last).recv.sLen.toNat :=
        hready.payload hstep'
      rw [← readFirst_info _ h.info.dataLen] at hstep'
      rw [readFirstIn_eq hready.wf hfits, ok_bind]
      split
      · next hshort =>
        have harmed := hread.armPayload hstep' hshort
        exact ⟨_, rfl, ⟨harmed.wf, fun _ => harmed⟩, fun _ => hnone _⟩
      · obtain ⟨r, hr, hbounded⟩ := hread.finishIn hstep' k.func
        exact ⟨r, hr, ⟨hbounded.wf, fun _ => hbounded⟩, fun _ => hnone r⟩
  · next hstep =>
    obtain ⟨r, hr, hbounded⟩ := hw.finishIn hstep k.func
    exact ⟨r, hr, ⟨hbounded.wf, fun _ => hbounded⟩, fun hzero => absurd hzero hstep⟩

end Call

-- ════════════════════════════════════════════════════════════════════════
-- A wake-up
-- ════════════════════════════════════════════════════════════════════════

section Wake

variable {w w₁ : WsRecv} {k : WsWake} {e : Events}

/-- What the worker fetches is stored inside the buffer. -/
theorem Bounded.transferIn (hw : Bounded w) (hin : e.input = true) (hu : w.unread ≠ []) :
    ∃ w₁ next, w.transferIn e = .ok (w₁, next) ∧ Bounded w₁ ∧ Kept w w₁ ∧
      (w₁.info.step = 0 → w₁.unread ≠ []) := by
  by_cases hpend : w.recv.Pending
  · have hbegun : w.info.step ≠ 0 := fun hzero => hw.idle hzero hpend
    have hfits := hw.fetch hpend
    have hwf : w.recv.sLen.toNat ≤ w.recv.s.length := hw.wf
    obtain ⟨hok, -, hsLen, -⟩ := autoRecv_kernel (d := w.taken) hpend hu
    have hstep : AutoStep w.taken (w.taken.autoRecv w.kernel) :=
      TstData.autoRecv_step (UInt32.le_of_lt hpend) (Nat.le_trans hfits hwf) hok
    have hroom : w.recv.comLen.toNat + (w.taken.autoRecv w.kernel).bytes.length ≤
        w.recv.reqLen.toNat := hstep.room
    have hinside : w.recv.pos + (w.taken.autoRecv w.kernel).bytes.length ≤ w.recv.sLen.toNat := by
      rw [TstData.pos]
      omega
    have hkept : Kept w w.fetched := ⟨hsLen, hstep.length, rfl⟩
    refine ⟨w.fetched, (w.taken.autoRecv w.kernel).next, ?_, ⟨?_, ?_, ?_, ?_, ?_⟩, hkept, ?_⟩
    · rw [WsRecv.transferIn]
      simp only [transfer_pending hin hpend, TstData.inside_of_le hinside hwf, ok_bind]
      rfl
    · exact hkept.wf hwf
    · exact hkept.sLen ▸ hw.room
    · exact fun hzero => absurd hzero hbegun
    · exact fun _ => hkept.sLen ▸ hw.payload hbegun
    · intro _
      rw [hkept.sLen, fetched, hstep.reqPos, hstep.reqLen]
      exact hfits
    · exact fun hzero => absurd hzero hbegun
  · refine ⟨{ w with recv := w.taken }, .run, ?_, ?_, ?_, fun _ => hu⟩
    · rw [WsRecv.transferIn]
      simp only [transfer_idle hin hpend]
      rfl
    · exact ⟨hw.wf, hw.room, hw.idle, hw.payload, hw.fetch⟩
    · exact ⟨rfl, rfl, rfl⟩

/-- No store of a wake-up is outside the buffer, and a length above the limit is refused. -/
theorem Bounded.wakeIn (hw : Bounded w) (hk : w.Wakes k) :
    ∃ r, w.wakeIn k = .ok r ∧ CallBounded r ∧
      ∀ w₁, (w.arrive k.arrived).transferIn k.events = .ok (w₁, .run) → w₁.info.step = 0 →
        ∀ h mPos, w₁.headerIn k.between = .ok (h, mPos) → 10485760 < h.info.dataLen →
          Refused w r := by
  have hready : Bounded (w.arrive k.arrived) :=
    ⟨hw.wf, hw.room, hw.idle, hw.payload, hw.fetch⟩
  obtain ⟨w₁, next, htransfer, hw₁, hkept, hu⟩ := hready.transferIn hk.1 hk.2
  rw [WsRecv.wakeIn, htransfer, ok_bind]
  dsimp only
  split
  · next hrun =>
    obtain ⟨r, hr, hcall, hrefused⟩ := hw₁.websocketIn (k := k) hu
    refine ⟨r, hr, hcall, fun w₂ heq hstep h mPos hheader hbig => ?_⟩
    obtain ⟨rfl, -⟩ := Prod.mk.inj (Except.ok.inj heq)
    have hr := hrefused hstep h mPos hheader hbig
    exact ⟨hr.next, hr.sLen.trans hkept.sLen, hr.length.trans hkept.length⟩
  · next hnot =>
    refine ⟨_, rfl, ⟨hw₁.wf, fun _ => hw₁⟩, fun w₂ heq => ?_⟩
    exact absurd (Prod.mk.inj (Except.ok.inj heq)).2 hnot

theorem bounded_of_run {w₀ : WsRecv} (hw₀ : w₀.Ready)
    (hrun : Relation.ReflTransGen Received w₀ w) : Bounded w := by
  induction hrun with
  | refl => exact hw₀.bounded
  | tail _ hstep ih =>
    obtain ⟨k, r, hk, hr, hnext, rfl⟩ := hstep
    obtain ⟨r', hr', hcall, -⟩ := ih.wakeIn hk
    obtain rfl := Except.ok.inj (hr.symm.trans hr')
    exact hcall.bounded hnext

/-- From a connection that waits for a frame, with any bytes in its buffer, no run of wake-ups
stores outside the buffer; what it has noted as the size has been allocated; and a length above
the limit is refused. -/
theorem receive_in_bounds {w₀ : WsRecv} (hw₀ : w₀.Ready)
    (hrun : Relation.ReflTransGen Received w₀ w) (hk : w.Wakes k) :
    w.recv.sLen.toNat ≤ w.recv.s.length ∧
      ∃ r, w.wakeIn k = .ok r ∧ r.conn.recv.sLen.toNat ≤ r.conn.recv.s.length ∧
        ∀ w₁, (w.arrive k.arrived).transferIn k.events = .ok (w₁, .run) → w₁.info.step = 0 →
          ∀ h mPos, w₁.headerIn k.between = .ok (h, mPos) → 10485760 < h.info.dataLen →
            Refused w r := by
  have hw : Bounded w := bounded_of_run hw₀ hrun
  obtain ⟨r, hr, hcall, hrefused⟩ := hw.wakeIn hk
  exact ⟨hw.wf, r, hr, hcall.wf, hrefused⟩

/-- A frame declares 2^63 bytes, and its mask is missing. -/
theorem receive_in_bounds_huge :
    ∃ r, (upgraded []).wakeIn ⟨[0x82, 0xFF, 0x80, 0, 0, 0, 0, 0, 0, 0], {}, { epollin := true },
        fun _ => 0, none⟩ = .ok r ∧
      r.next = .disconnect ∧ r.conn.recv.sLen = 16 := by
  obtain ⟨-, r, hr, -, hrefused⟩ := receive_in_bounds (upgraded_ready []) .refl
    (k := ⟨[0x82, 0xFF, 0x80, 0, 0, 0, 0, 0, 0, 0], {}, { epollin := true }, fun _ => 0, none⟩)
    ⟨rfl, by simp⟩
  have hbig := hrefused _ rfl rfl _ _ rfl (by decide)
  exact ⟨r, hr, hbig.next, hbig.sLen⟩

end Wake

end WsRecv

end Tst
