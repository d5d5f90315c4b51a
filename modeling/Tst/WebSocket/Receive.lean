import Tst.Lib.ByteOrder
import Tst.Work.Transfer

/-!
# Reception of WebSocket frames

The function `websocket()` of an upgraded connection, with the worker's transfer before
it. A call that begins a frame reads its header in up to three calls of `read()`, then as
much of the payload as there is; the worker fetches the rest.

## Main definitions

- `WsRecv.websocket` — one call of `websocket()`
- `WsRecv.wake` — one wake-up of the connection
-/

namespace Tst

open Bytes ByteOrder

/-- `WS_INFO`, without the user function. `data` is the index in `recv->s` at which the
payload begins. -/
structure WsInfo where
  opcode : UInt8 := 0
  dataLen : Nat := 0
  mask : List UInt8 := [0, 0, 0, 0]
  data : Option Nat := none
  step : UInt8 := 0
  isMasked : Bool := false
  isText : Bool := false
  isBin : Bool := false
  isClose : Bool := false
  isPing : Bool := false
  isPong : Bool := false
  deriving DecidableEq, Repr

/-- What the user function finds when it is called: the frame and its payload
`data[0 .. data_len)`. -/
structure Delivery where
  info : WsInfo
  data : List UInt8
  deriving DecidableEq, Repr

/-- `websocket_func`, by what it returns. -/
abbrev WebsocketFunc := Delivery → TstStat

/-- What `websocket()` works on: the receive buffer, the `WS_INFO`, and the bytes that
have arrived at the socket and are unread. -/
structure WsRecv where
  sd : Nat
  recv : TstData
  info : WsInfo := {}
  unread : List UInt8 := []

/-- What a call leaves: the connection, the answer to the worker, the calls of the user
function, and the bytes written to the socket. -/
structure WsResult where
  conn : WsRecv
  next : TstStat
  delivered : List Delivery := []
  sent : List UInt8 := []

/-- `ws_writedisconnect`. It sends status 1000, whatever it is called with. -/
def wsWritedisconnect : List UInt8 := [0x88, 2] ++ beBytes 2 1000

/-- The fields that the first two bytes of a frame determine. -/
def WsInfo.start (info : WsInfo) (b₀ b₁ : UInt8) : WsInfo :=
  { info with
    opcode := b₀ &&& 0x0F
    isText := b₀ &&& 0x0F = 0x1
    isBin := b₀ &&& 0x0F = 0x2
    isClose := b₀ &&& 0x0F = 0x8
    isPing := b₀ &&& 0x0F = 0x9
    isPong := b₀ &&& 0x0F = 0xA
    isMasked := b₁ &&& 0x80 ≠ 0
    dataLen := (b₁ &&& 0x7F).toNat }

/-- `data[i] ^= mask[i & 3]` for the first `n` bytes. -/
def unmask (mask : List UInt8) (n : Nat) (s : List UInt8) : List UInt8 :=
  s.mapIdx fun i b => if i < n then b ^^^ mask.getD (i % 4) 0 else b

namespace WsRecv

/-- `read(sd, s + p, n)`: the bytes that are there, or -1 when there is none. -/
def read (w : WsRecv) (p n : Nat) : WsRecv × Option Nat :=
  if 0 < n ∧ w.unread = [] then (w, none)
  else
    ({ w with
        recv := { w.recv with s := splice w.recv.s p (w.unread.take n) }
        unread := w.unread.drop n },
      some (w.unread.take n).length)

/-- `com_len = read(sd, s, n)`. -/
def readFirst (w : WsRecv) (n : Nat) : WsRecv :=
  let (w', rc) := w.read 0 n
  { w' with recv := { w'.recv with comLen := addResult 0 rc } }

/-- `com_len += read(sd, s + com_len, n)`. -/
def readMore (w : WsRecv) (n : Nat) : WsRecv :=
  let (w', rc) := w.read w.recv.comLen.toNat n
  { w' with recv := { w'.recv with comLen := addResult w.recv.comLen rc } }

/-- The bytes `s[p .. p + n)` as a number in network byte order: `ntohs`, `ntohl`. -/
def ntoh (w : WsRecv) (p n : Nat) : Nat := beNat (window w.recv.s p n)

def setLen (w : WsRecv) (n : Nat) : WsRecv := { w with info := { w.info with dataLen := n } }

/-- The mask follows the length, if there is one. -/
def readMask (w : WsRecv) : WsRecv := if w.info.isMasked then w.readMore 4 else w

/-- The first two bytes of a frame. -/
def readStart (w : WsRecv) : WsRecv :=
  let w := w.readFirst 2
  { w with info := w.info.start (w.recv.s.getD 0 0) (w.recv.s.getD 1 0) }

/-- The length field and the mask, and the position of the mask. -/
def readLen (w : WsRecv) : WsRecv × Nat :=
  if w.info.dataLen < 126 then (w.readMask, 2)
  else if w.info.dataLen = 126 then
    let w := w.readMore 2
    ((w.setLen (w.ntoh 2 2)).readMask, 4)
  else
    let w := w.readMore 8
    ((w.setLen (w.ntoh 2 4 * 2 ^ 32 + w.ntoh 6 4)).readMask, 10)

/-- The receive buffer after `realloc` to `n + 1` bytes of payload. What the new bytes
hold is up to the allocator. -/
def grow (d : TstData) (junk : Nat → UInt8) (n : Nat) : TstData :=
  { d with
    sLen := UInt32.ofNat n
    s := d.s.take (n + 1) ++
      (List.range (n + 1 - d.s.length)).map fun i => junk (d.s.length + i) }

/-- After the header: the mask is kept, the buffer grown if need be and cleared. -/
def openPayload (w : WsRecv) (junk : Nat → UInt8) (mPos : Nat) : WsRecv :=
  let recv :=
    if w.info.dataLen > w.recv.sLen.toNat then grow w.recv junk w.info.dataLen else w.recv
  { w with
    recv := recv.resetData
    info := { w.info with
      mask := if w.info.isMasked then window w.recv.s mPos 4 else w.info.mask
      step := 1
      data := some 0 } }

/-- The rest of the payload is left to the worker. -/
def armPayload (w : WsRecv) : WsRecv :=
  { w with recv := { w.recv with
      reqPos := w.recv.comLen
      reqLen := UInt32.ofNat (w.info.dataLen - w.recv.comLen.toNat)
      comLen := 0 } }

/-- `recv->reset_data()` and `WS_INFO::init()`. -/
def reset (w : WsRecv) : WsRecv := { w with recv := w.recv.resetData, info := {} }

/-- The payload is complete: it is unmasked and handed to the user function. -/
def finish (w : WsRecv) (func : Option WebsocketFunc) : WsResult :=
  let w := if w.info.isMasked then
      { w with recv := { w.recv with s := unmask w.info.mask w.info.dataLen w.recv.s } }
    else w
  match func with
  | some f =>
    let d : Delivery := ⟨w.info, window w.recv.s (w.info.data.getD 0) w.info.dataLen⟩
    let next := f d
    { conn := if next ≠ .run then w.reset else w, next, delivered := [d] }
  | none => { conn := w.reset, next := if w.info.isClose then .disconnect else .suspend }

/-- `websocket()` on an upgraded connection. -/
def websocket (w : WsRecv) (junk : Nat → UInt8) (func : Option WebsocketFunc) : WsResult :=
  if w.info.step = 0 then
    let (w, mPos) := w.readStart.readLen
    if mPos = 10 ∧ w.info.dataLen > 10485760 then
      { conn := w, next := .disconnect, sent := wsWritedisconnect }
    else
      let w := (w.openPayload junk mPos).readFirst w.info.dataLen
      if w.recv.comLen.toNat < w.info.dataLen then { conn := w.armPayload, next := .suspend }
      else w.finish func
  else w.finish func

/-- The kernel's side of the socket. `SIOCINQ` counts into an `int`. -/
def kernel (w : WsRecv) : Kernel where
  siocinq := some (UInt32.ofNat (min w.unread.length (2 ^ 31 - 1)))
  read n := if 0 < n ∧ w.unread = [] then none else some ⟨w.unread.take n, List.length_take_le ..⟩
  write _ := none

/-- A wake-up with the event bits `e`: what `tst_main` stores in the socket, the worker's
transfer, and, when that asks for the user function, `http()`, which passes the call on to
`websocket()`. -/
def wake (w : WsRecv) (junk : Nat → UInt8) (func : Option WebsocketFunc) (e : Events) :
    WsResult :=
  let sock : TstSocket := { sd := w.sd, recv := some w.recv }
  let r := (sock.handEvents e (UInt32.ofNat w.unread.length)).transfer w.kernel
  let w := { w with
    recv := r.sock.recv.getD w.recv
    unread := w.unread.drop r.bytes.length }
  if r.next = .run then w.websocket junk func else { conn := w, next := r.next }

end WsRecv

end Tst
