import Tst.Ami.Event
import Tst.WebSocket.Receive

/-!
# The user function of the pool

The workers call `http()` for every connection. It passes the call on to `websocket()` or
`ami_event()` where the connection has such a function, and reads requests itself where it
has none, or where that function answers `tst_run`. All three keep their state in the one
block that `user_data` points at.

## Main definitions

- `HttpSocket` — a connection
- `HttpSocket.http`, `HttpSocket.websocket`, `HttpSocket.amiEvent` — the functions
- `HttpSocket.wake` — one wake-up of the connection
-/

namespace Tst

open Bytes CString

/-- `TST_SOCKETTYPE`, without the types for the user. -/
inductive SocketType
  | sub | websocket | listen | client
  deriving DecidableEq, Repr

/-- The functions that are stored in `func`. -/
inductive Handler
  | websocket | amiEvent
  deriving DecidableEq, Repr

/-- The block that `user_data` points at, by the function that has allocated it:
`REQUEST_INFO::alloc`, `WS_INFO::alloc` or `AMI_MANAGE::alloc`. A `WS_INFO` holds the name
under which its user function is listed, if it has one. -/
inductive UserData
  | request (req : RequestInfo)
  | ws (info : WsInfo) (func : Option (List UInt8))
  | manage
  deriving DecidableEq

/-- `user_data->type`. -/
def UserData.type : UserData → Nat
  | request _ => 0
  | ws .. => 100
  | manage => 100

/-- `TST_SOCKET`, with the bytes that have arrived and are unread. -/
structure HttpSocket where
  sd : Nat
  type : SocketType := .sub
  func : Option Handler := none
  recv : TstData
  user : Option UserData := none
  unread : List UInt8 := []

/-- A call of a route: its name, the request, and the receive buffer without the count that
`tst_main` stores there. -/
structure HttpCall where
  uri : List UInt8
  req : RequestInfo
  recv : TstData
  deriving DecidableEq

/-- What surrounds a call of `http()`: the names in `g_route`, `g_websocket` and `g_process`,
the functions listed there, the allocator's junk, and the other threads. -/
structure Surroundings where
  routes : List (List UInt8)
  wsRoutes : List (List UInt8)
  handlers : List (List UInt8)
  route : HttpCall → TstStat
  websocketFunc : List UInt8 → WebsocketFunc
  junk : Nat → UInt8
  view : ManageView

/-- How a call ends: with an answer, in a fault, or because a block is to be read as one of
another type. -/
inductive Served
  | answer (next : TstStat)
  | fault (f : Fault)
  | misread
  deriving DecidableEq

/-- The connection is kept. -/
def Served.goesOn : Served → Bool
  | .answer next => next ≠ .disconnect
  | _ => false

/-- What a call leaves: the connection, how it ended, the calls of routes, and whether
`http()` has gone on to its own part. -/
structure HttpReturn where
  sock : HttpSocket
  served : Served
  calls : List HttpCall := []
  parsed : Bool := false

namespace HttpSocket

/-- A connection that has been accepted. -/
def accepted (sd : Nat) (sLen : UInt32) : HttpSocket where
  sd := sd
  recv := .alloc sLen

/-- The AMI connection after its login. -/
def loggedIn (sd : Nat) (sLen : UInt32) : HttpSocket where
  sd := sd
  type := .client
  func := some .amiEvent
  recv := .alloc sLen
  user := some .manage

/-- The frames of an upgraded connection. -/
def websocketFrames (sock : HttpSocket) (c : Surroundings) : HttpReturn :=
  match sock.user with
  | none => { sock, served := .answer .disconnect }
  | some (.ws info func) =>
    let w : WsRecv := { sd := sock.sd, recv := sock.recv, info, unread := sock.unread }
    let r := w.websocket c.junk (func.map c.websocketFunc)
    { sock := { sock with
        recv := r.conn.recv
        unread := r.conn.unread
        user := some (.ws r.conn.info func) }
      served := .answer r.next }
  | some _ => { sock, served := .misread }

/-- The first call of `websocket()`: the request gives way to a `WS_INFO`. -/
def websocketConnect (sock : HttpSocket) (c : Surroundings) : HttpReturn :=
  match sock.user with
  | none => { sock, served := .fault .null }
  | some (.request req) =>
    match deref req.requestUri >>= str sock.recv.s with
    | .error f => { sock, served := .fault f }
    | .ok uri =>
      let func := if c.wsRoutes.contains uri then some uri else none
      { sock := { sock with type := .websocket, user := some (.ws {} func) }
        served := .answer (if func.isSome then .suspend else .disconnect) }
  | some _ => { sock, served := .misread }

/-- `websocket()`. -/
def websocket (sock : HttpSocket) (c : Surroundings) : HttpReturn :=
  if sock.type = .sub then sock.websocketConnect c else sock.websocketFrames c

/-- `ami_event()`. What is not tagged as an `AMI_MANAGE` is left to `http()`. -/
def amiEvent (sock : HttpSocket) (e : Events) (c : Surroundings) : HttpReturn :=
  match sock.user with
  | none => { sock, served := .answer .run }
  | some user =>
    if user.type ≠ 100 then { sock, served := .answer .run }
    else
      match user with
      | .manage =>
        let r := ({ sd := sock.sd, recv := sock.recv, unread := sock.unread } : AmiConn).amiEvent
          e c.handlers c.view
        { sock := { sock with recv := r.conn.recv, unread := r.conn.unread }
          served := match r.outcome with
            | .error f => .fault f
            | .ok _ => .answer .suspend }
      | _ => { sock, served := .misread }

/-- The number of bytes to read: what is free, or what has been counted. -/
def remain (d : TstData) : Int :=
  min (Int.bmod (d.sLen - d.reqPos - d.comLen).toNat (2 ^ 32)) (Int.bmod d.checkedLen.toNat (2 ^ 32))

/-- `req_pos + com_len < s_len`. -/
def inBuffer (d : TstData) : Bool := d.reqPos + d.comLen < d.sLen

/-- The loop over the bytes of a header block, if any byte has been counted. -/
def receive (sock : HttpSocket) : HttpSocket :=
  if sock.recv.checkedLen ≠ 0 then
    let r := readMessage sock.recv.reqPos inBuffer (remain sock.recv).toNat sock.recv sock.unread
    { sock with recv := r.1, unread := r.2 }
  else sock

/-- A route is called. After any answer but `tst_disconnect` the connection is ready for
another request. -/
def callRoute (sock : HttpSocket) (c : Surroundings) (uri : List UInt8) (req : RequestInfo) :
    HttpReturn :=
  let call : HttpCall := { uri, req, recv := { sock.recv with checkedLen := 0 } }
  let next := c.route call
  { sock := if next ≠ .disconnect then { sock with recv := sock.recv.resetData, user := none }
      else sock
    served := .answer next
    calls := [call] }

/-- What `http()` does with a request that has been parsed or whose body is there. -/
def serve (sock : HttpSocket) (c : Surroundings) (r : HttpResult) : HttpReturn :=
  let sock := { sock with recv := r.recv, user := some (.request r.req) }
  match r.outcome with
  | .respond _ => { sock, served := .answer .disconnect }
  | .body => { sock, served := .answer .suspend }
  | .upgrade _ _ => { sock with func := some .websocket }.websocket c
  | .route uri => sock.callRoute c uri r.req

/-- A header block, or the body of a request, is complete. -/
def complete (sock : HttpSocket) (c : Surroundings) : HttpReturn :=
  match sock.user with
  | none =>
    match httpMessage sock.recv c.routes with
    | .error f => { sock, served := .fault f }
    | .ok r => sock.serve c r
  | some (.request req) =>
    match httpBody sock.recv req c.routes with
    | .error f => { sock, served := .fault f }
    | .ok r => sock.serve c r
  | some _ => { sock, served := .misread }

/-- The own part of `http()`. A block that does not fit is answered with code 413. -/
def httpOwn (sock : HttpSocket) (e : Events) (c : Surroundings) : HttpReturn :=
  if e.epollin then
    let counted := sock.recv.checkedLen ≠ 0
    let sock := sock.receive
    if counted ∧ ¬ inBuffer sock.recv then { sock, served := .answer .disconnect }
    else if counted ∧ ¬ sock.recv.endsMessage sock.recv.reqPos then
      { sock, served := .answer .suspend }
    else sock.complete c
  else { sock, served := .answer .disconnect }

/-- The function in `func`. -/
def callFunc (sock : HttpSocket) (e : Events) (c : Surroundings) : Handler → HttpReturn
  | .websocket => sock.websocket c
  | .amiEvent => sock.amiEvent e c

/-- `http()`. -/
def http (sock : HttpSocket) (e : Events) (c : Surroundings) : HttpReturn :=
  match sock.func with
  | none => { sock.httpOwn e c with parsed := true }
  | some handler =>
    let r := sock.callFunc e c handler
    if r.served = .answer .run then { r.sock.httpOwn e c with parsed := true } else r

/-- A wake-up with the event bits `e`, at which `n` unread bytes have been counted: what
`tst_main` stores in the socket, the worker's transfer, and, when that asks for the user
function, `http()`. -/
def wake (sock : HttpSocket) (e : Events) (n : Nat) (k : Kernel) (c : Surroundings) : HttpReturn :=
  let tst : TstSocket := { sd := sock.sd, recv := some sock.recv }
  let r := (tst.handEvents e (UInt32.ofNat n)).transfer k
  let sock := { sock with
    recv := r.sock.recv.getD sock.recv
    unread := sock.unread.drop r.bytes.length }
  if r.next = .run then sock.http e c else { sock, served := .answer r.next }

end HttpSocket

end Tst
