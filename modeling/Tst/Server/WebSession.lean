import Tst.Server.Answers
import Tst.WebSocket.Stream

/-!
# A WebSocket session

One connection from its first byte on: `http()` reads a request for an upgrade, and from then on
`websocket()` hands the frames that follow on the same stream to the user function of the URI,
which answers them. How the bytes are cut into arrivals is up to the network.

## Main definitions

- `HttpSocket.writes` — what is written in a wake-up
- `WebLink.step` — bytes arrive, or the connection is woken
- `WebLink.Follows` — what holds of a session at all times

## Main results

- `web_session` — the client gets the answer to its request and then those to its frames, in
  their order, up to the first one after which the user function ends the connection
-/

namespace Tst

open Bytes CString Execution Framing

/-- What surrounds the next call after `k` calls of the user function. -/
def WebServer.at (srv : WebServer) (k : Nat) (junk : Nat → UInt8) : Surroundings :=
  { srv.around with websocketFunc := fun name d => (srv.answer name k d).2, junk }

/-- The call has come to an answer. -/
def Served.answered : Served → Bool
  | .answer _ => true
  | _ => false

namespace HttpSocket

/-- The connection when the worker's transfer is over, and what the transfer asks for. -/
def transferred (sock : HttpSocket) (e : Events) (n : Nat) (k : Kernel) : HttpSocket × TstStat :=
  let tst : TstSocket := { sd := sock.sd, recv := some sock.recv }
  let r := (tst.handEvents e (UInt32.ofNat n)).transfer k
  ({ sock with
      recv := r.sock.recv.getD sock.recv
      unread := sock.unread.drop r.bytes.length }, r.next)

/-- How far the reception of a frame has got. -/
def frameStep (sock : HttpSocket) : Option UInt8 :=
  match sock.user with
  | some (.ws info _) => some info.step
  | _ => none

/-- The call of `websocket()` for a frame, and the name of its user function. -/
def frameCall (sock : HttpSocket) (c : Surroundings) : Option (WsResult × Option (List UInt8)) :=
  match sock.func, sock.user with
  | some .websocket, some (.ws info func) =>
    let w : WsRecv := { sd := sock.sd, recv := sock.recv, info, unread := sock.unread }
    some (w.websocket c.junk (func.map c.websocketFunc), func)
  | _, _ => none

/-- What the user function is called with in a wake-up. -/
def deliveries (sock : HttpSocket) (e : Events) (n : Nat) (k : Kernel) (c : Surroundings) :
    List Delivery :=
  let (sock, next) := sock.transferred e n k
  if next = .run then (sock.frameCall c).elim [] fun r => r.1.delivered else []

/-- What is written in a wake-up, after `calls` calls of the user function. -/
def writes (sock : HttpSocket) (e : Events) (n : Nat) (k : Kernel) (srv : WebServer) (calls : Nat)
    (junk : Nat → UInt8) (send : TstData) : Except Fault Written :=
  let (sock, next) := sock.transferred e n k
  if next = .run then
    match sock.func with
    | none => sock.httpOwnWrites e srv send
    | some _ =>
      match sock.frameCall (srv.at calls junk) with
      | none => .ok { send }
      | some (r, func) =>
        let replies := r.delivered.flatMap fun d => func.elim [] fun f => (srv.answer f calls d).1
        .ok { send, sent := replies ++ r.sent }
  else .ok { send }

end HttpSocket

/-- A connection, its send buffer, the bytes that are still on their way to it, the calls of
routes and of the user function, and what has been written. -/
structure WebLink where
  sock : HttpSocket
  send : TstData
  future : List UInt8
  calls : List HttpCall := []
  delivered : List Delivery := []
  sent : List UInt8 := []
  ended : Bool := false
  fault : Bool := false

namespace WebLink

/-- A new connection, on which these bytes will arrive. -/
def start (sd : Nat) (sLen : UInt32) (send : TstData) (stream : List UInt8) : WebLink where
  sock := .accepted sd sLen
  send := send
  future := stream

/-- One action. A wake-up finds at least one unread byte, and `SIOCINQ` counts into an `int`. -/
def step (srv : WebServer) (l : WebLink) : LinkAction → Option WebLink
  | .arrive n =>
    some { l with
      sock := { l.sock with unread := l.sock.unread ++ l.future.take n }
      future := l.future.drop n }
  | .wake e junk =>
    let n := l.sock.unread.length
    if e.epollin = true ∧ 0 < n ∧ n < 2 ^ 31 ∧ l.ended = false then
      let k := arrived l.sock.unread n
      let c := srv.at l.delivered.length junk
      let r := l.sock.wake e n k c
      let l' := { l with
        sock := r.sock
        calls := l.calls ++ r.calls
        delivered := l.delivered ++ l.sock.deliveries e n k c
        ended := !r.served.goesOn
        fault := !r.served.answered }
      match l.sock.writes e n k srv l.delivered.length junk l.send with
      | .error _ => some { l' with ended := true, fault := true }
      | .ok w => some { l' with send := w.send, sent := l.sent ++ w.sent }
    else none

/-- A frame is begun only when its header is there and its payload has begun to arrive. -/
def beginOk (l : WebLink) : LinkAction → Prop
  | .arrive _ => True
  | .wake _ _ => l.sock.frameStep = some 0 → headerReady l.sock.unread = true

instance (l : WebLink) : (a : LinkAction) → Decidable (beginOk l a)
  | .arrive _ => instDecidableTrue
  | .wake _ _ => inferInstanceAs (Decidable (_ → headerReady l.sock.unread = true))

end WebLink

-- ════════════════════════════════════════════════════════════════════════
-- Frames
-- ════════════════════════════════════════════════════════════════════════

section Frames

variable {w : WsRecv} {junk : Nat → UInt8} {f : WebsocketFunc} {e : Events}

theorem kernel_arrived (hpos : 0 < w.unread.length) (hlt : w.unread.length < 2 ^ 31) :
    w.kernel = arrived w.unread w.unread.length := by
  have hne : w.unread ≠ [] := List.length_pos_iff.mp hpos
  have hmin : min w.unread.length (2 ^ 31 - 1) = w.unread.length := by omega
  have hread : ∀ n, ¬ (0 < n ∧ w.unread = []) := fun n h => hne h.2
  simp only [WsRecv.kernel, arrived, hmin, if_neg (hread _)]

/-- What the user function answers, if it is called. -/
def answered (f : WebsocketFunc) (r : WsResult) : WsResult :=
  { r with next := (r.delivered.head?.map f).getD r.next }

theorem finish_answered (w : WsRecv) (hf : ∀ d, f d ≠ .run) :
    w.finish (some f) = answered f (w.finish (some alwaysSuspend)) := by
  have hrun : (TstStat.suspend ≠ .run) = True := by simp
  simp only [WsRecv.finish, answered, alwaysSuspend, if_pos (hf _), hrun, if_true, List.head?_cons,
    Option.map_some, Option.getD_some]

/-- The user function's answer does not bear on anything else. -/
theorem websocket_answered (w : WsRecv) (hf : ∀ d, f d ≠ .run) :
    w.websocket junk (some f) = answered f (w.websocket junk (some alwaysSuspend)) := by
  simp only [WsRecv.websocket]
  split
  · split
    · rfl
    · split
      · rfl
      · exact finish_answered _ hf
  · exact finish_answered _ hf

theorem wake_answered (w : WsRecv) (junk : Nat → UInt8) (e : Events) (hf : ∀ d, f d ≠ .run) :
    w.wake junk (some f) e = answered f (w.wake junk (some alwaysSuspend) e) := by
  simp only [WsRecv.wake]
  split
  · exact websocket_answered _ hf
  · rfl

end Frames

namespace HttpSocket

variable {sock : HttpSocket} {info : WsInfo} {uri : List UInt8} {e : Events} {srv : WebServer}
  {junk : Nat → UInt8}

/-- What `websocket()` works on. -/
def wsRecv (sock : HttpSocket) (info : WsInfo) : WsRecv where
  sd := sock.sd
  recv := sock.recv
  info := info
  unread := sock.unread

/-- The connection is one to a user function. -/
structure Upgraded (sock : HttpSocket) (info : WsInfo) (uri : List UInt8) : Prop where
  func : sock.func = some .websocket
  type : sock.type = .websocket
  user : sock.user = some (.ws info (some uri))

theorem Upgraded.moved (h : sock.Upgraded info uri) (recv : TstData) (unread : List UInt8) :
    ({ sock with recv, unread } : HttpSocket).Upgraded info uri := ⟨h.func, h.type, h.user⟩

/-- `http()` passes the call on. -/
theorem Upgraded.http (h : sock.Upgraded info uri) (c : Surroundings) :
    let r := (sock.wsRecv info).websocket c.junk (some (c.websocketFunc uri))
    sock.frameCall c = some (r, some uri) ∧ (r.next ≠ .run → sock.http e c =
      { sock := { sock with
          recv := r.conn.recv
          unread := r.conn.unread
          user := some (.ws r.conn.info (some uri)) }
        served := .answer r.next }) := by
  intro r
  have htype : ¬ sock.type = .sub := by
    rw [h.type]
    decide
  have hcall : sock.callFunc e c .websocket =
      { sock := { sock with
          recv := r.conn.recv
          unread := r.conn.unread
          user := some (.ws r.conn.info (some uri)) }
        served := .answer r.next } := by
    rw [callFunc, websocket, if_neg htype, websocketFrames, h.user]
    rfl
  refine ⟨?_, fun hnext => ?_⟩
  · rw [frameCall, h.func, h.user]
    rfl
  · have hne : ¬ Served.answer r.next = .answer .run := fun heq => hnext (Served.answer.inj heq)
    simp only [HttpSocket.http, h.func, hcall, if_neg hne]

/-- A wake-up of an upgraded connection is one of the reception of frames. -/
theorem Upgraded.wake (h : sock.Upgraded info uri) (srv : WebServer) (e : Events)
    (junk : Nat → UInt8) (hpos : 0 < sock.unread.length) (hlt : sock.unread.length < 2 ^ 31)
    (k : Nat) (send : TstData) :
    let n := sock.unread.length
    let kernel := arrived sock.unread n
    let r := (sock.wsRecv info).wake junk (some fun d => (srv.answer uri k d).2) e
    r.next ≠ .run →
    sock.wake e n kernel (srv.at k junk) =
        { sock := { sock with
            recv := r.conn.recv
            unread := r.conn.unread
            user := some (.ws r.conn.info (some uri)) }
          served := .answer r.next } ∧
      sock.deliveries e n kernel (srv.at k junk) = r.delivered ∧
      sock.writes e n kernel srv k junk send =
        .ok { send, sent := (r.delivered.flatMap fun d => (srv.answer uri k d).1) ++ r.sent } := by
  intro n kernel r hnext
  have hkernel : kernel = (sock.wsRecv info).kernel :=
    (kernel_arrived (w := sock.wsRecv info) hpos hlt).symm
  generalize ht : (TstSocket.handEvents { sd := sock.sd, recv := some sock.recv } e
    (UInt32.ofNat n)).transfer kernel = t
  have ht' : (TstSocket.handEvents
      { sd := (sock.wsRecv info).sd, recv := some (sock.wsRecv info).recv } e
      (UInt32.ofNat (sock.wsRecv info).unread.length)).transfer (sock.wsRecv info).kernel = t := by
    rw [← hkernel]
    exact ht
  obtain ⟨moved, hmoved⟩ : ∃ moved : HttpSocket, moved = { sock with
      recv := t.sock.recv.getD sock.recv
      unread := sock.unread.drop t.bytes.length } := ⟨_, rfl⟩
  have hup : moved.Upgraded info uri := hmoved ▸ h.moved _ _
  have hr : r = if t.next = .run then
      (moved.wsRecv info).websocket junk (some fun d => (srv.answer uri k d).2)
      else { conn := moved.wsRecv info, next := t.next } := by
    simp only [r, WsRecv.wake, ht', hmoved]
    rfl
  simp only [HttpSocket.wake, deliveries, writes, transferred, ht, ← hmoved]
  by_cases hgo : t.next = .run
  · rw [if_pos hgo] at hr
    obtain ⟨hcall, hhttp⟩ := hup.http (e := e) (srv.at k junk)
    have hsame : (moved.wsRecv info).websocket (srv.at k junk).junk
        (some ((srv.at k junk).websocketFunc uri)) = r := hr.symm
    rw [hsame] at hcall hhttp
    simp only [if_pos hgo, hhttp hnext, hcall, hup.func, Option.elim_some]
    refine ⟨?_, trivial, trivial⟩
    rw [hmoved, ← h.func]
  · rw [if_neg hgo] at hr
    simp only [if_neg hgo, hr, List.flatMap_nil, List.append_nil, and_true]
    rw [hmoved, wsRecv, ← h.user]

end HttpSocket

-- ════════════════════════════════════════════════════════════════════════
-- The request
-- ════════════════════════════════════════════════════════════════════════

section Request

variable {sLen n : UInt32} {sock : HttpSocket} {srv : WebServer} {e : Events}
  {x future : List UInt8} {version key method target junk rest : List UInt8} {m : HttpResult}

/-- What the worker makes of a wake-up while a header block is read. -/
theorem transferred_counted (hrecv : sock.recv = counted sLen x n) (he : e.epollin = true)
    (count : Nat) (k : Kernel) :
    sock.transferred e count k =
      ({ sock with recv := counted sLen x (UInt32.ofNat count) }, .run) := by
  have hin : e.input = true := by
    rw [Events.input, he]
    rfl
  have hhanded : ({ sd := sock.sd, recv := some sock.recv } : TstSocket).handEvents e
      (UInt32.ofNat count) =
      { sd := sock.sd, events := e, recv := some (counted sLen x (UInt32.ofNat count)) } := by
    rw [TstSocket.handEvents, if_pos ⟨hin, rfl⟩, hrecv]
    rfl
  have hidle : (counted sLen x (UInt32.ofNat count)).reqLen = 0 := rfl
  simp only [HttpSocket.transferred, hhanded, TstSocket.transfer, hin, if_true, hidle, ne_eq,
    not_true, if_false, Option.getD_some, List.length_nil, List.drop_zero]

/-- A request for an upgrade leaves nothing to the worker. -/
theorem httpMessage_upgrade {d : TstData} {routes : List (List UInt8)}
    (hm : httpMessage d routes = .ok m) (hup : m.outcome = .upgrade version key) :
    m.recv.reqLen = d.reqLen := by
  rw [httpMessage] at hm
  obtain ⟨d', hd', hm⟩ := bind_eq_ok.mp hm
  obtain ⟨s, -, hs⟩ := bind_eq_ok.mp hd'
  obtain rfl := Except.ok.inj hs
  obtain ⟨p, -, hm⟩ := bind_eq_ok.mp hm
  split at hm
  · obtain rfl := Except.ok.inj hm
    exact absurd hup (by simp)
  obtain ⟨length, -, hm⟩ := bind_eq_ok.mp hm
  split at hm
  · obtain ⟨hrecv, -⟩ := httpRequest_upgrade hm hup
    rw [hrecv]
  split at hm
  · obtain rfl := Except.ok.inj hm
    exact absurd hup (by simp)
  · obtain rfl := Except.ok.inj hm
    exact absurd hup (by simp)

/-- A header block is long enough to hold the header of a frame. -/
theorem block_room {h : List UInt8} (hend : headerEnd <:+ h)
    (hline : readLine h = .full method target version junk rest) : 14 ≤ h.length := by
  rcases readLine_cases h with hinc | ⟨a, t, r, r', hmethod, htarget, hread⟩
  · rw [hline] at hinc
    exact absurd hinc (by simp)
  have hbegins : beginsVersion r := by
    by_contra hnot
    rw [hline, if_neg hnot] at hread
    split at hread
    · exact absurd hread (by simp)
    · exact absurd hread (by simp)
  obtain ⟨p, hp⟩ := headerEnd_line hend hmethod htarget
  have hlast : r[7]? = some 48 ∨ r[7]? = some 49 := by
    have hseven : r[7]? = ((r.drop 5).take 3)[2]? := by simp
    rcases hbegins.2 with h10 | h11
    · exact .inl (by rw [hseven, h10]; rfl)
    · exact .inr (by rw [hseven, h11]; rfl)
  -- the last digit of the version is not one of the four bytes at the end
  have hbefore : 8 ≤ p.length := by
    by_contra hlt
    rw [← hp, List.getElem?_append_right (by omega)] at hlast
    rcases hlast with h10 | h11
    · exact absurd (List.mem_of_getElem? h10) (by decide)
    · exact absurd (List.mem_of_getElem? h11) (by decide)
  obtain ⟨rfl, -⟩ := (cutAt_eq_some (by decide)).mp hmethod
  obtain ⟨rfl, -⟩ := (cutAt_eq_some (by decide)).mp htarget
  have hfour : headerEnd.length = 4 := rfl
  simp only [← hp, List.length_append, List.length_cons, hfour]
  omega

/-- The request is for an upgrade to a URI that is listed. -/
structure Asks (srv : WebServer) (req : HttpRequest sLen) (version key uri : List UInt8) :
    Prop where
  parsed : ∃ m, httpMessage (holding sLen req.block) srv.around.routes = .ok m ∧
    m.outcome = .upgrade version key
  line : ∃ method target junk rest, readLine req.block = .full method target version junk rest ∧
    uriText target = uri
  listed : uri ∈ srv.around.wsRoutes

variable {req : HttpRequest sLen} {uri : List UInt8}

/-- A header block is long enough for the header of a frame. -/
theorem Asks.room (h : Asks srv req version key uri) : 14 ≤ sLen.toNat := by
  obtain ⟨method, target, junk, rest, hline, -⟩ := h.line
  have hend : headerEnd <:+ req.block := List.isSuffixOf_iff_suffix.mp req.piece.1
  exact (block_room hend hline).trans req.block_lt.le

/-- Nothing belongs to the request behind its block. -/
theorem Asks.body (h : Asks srv req version key uri) : req.body = [] := by
  have hend : headerEnd <:+ req.block := List.isSuffixOf_iff_suffix.mp req.piece.1
  obtain ⟨m, hm, hup⟩ := h.parsed
  rcases message_cases req.block_lt hend hm with ⟨code, hcode⟩ | ⟨hzero, -⟩ | ⟨s, hbody, -⟩
  · rw [hcode] at hup
    exact absurd hup (by simp)
  · have hdeclared := req.declared
    exact List.length_eq_zero_iff.mp (by omega)
  · rw [hbody] at hup
    exact absurd hup (by simp)

/-- The block of the request is complete. -/
theorem Asks.complete (h : Asks srv req version key uri) (sock : HttpSocket) (k : Nat)
    (junk : Nat → UInt8) (hsha1 : ∀ text, (srv.sha1 text).length = 20)
    (hrecv : sock.recv = counted sLen req.block n) (htype : sock.type = .sub)
    (huser : sock.user = none) (send : TstData) (hsend : 129 < send.s.length) :
    ∃ recv : TstData, recv.sLen = sLen ∧ recv.WF ∧ recv.reqLen = 0 ∧
      sock.complete (srv.at k junk) =
        { sock := { sock with
            recv, func := some .websocket, type := .websocket, user := some (.ws {} (some uri)) }
          served := .answer .suspend } ∧
      ∃ send', sock.completeWrites srv send =
        .ok { send := send', sent := upgradeText version (encoded (srv.sha1 (keyText key))) } := by
  obtain ⟨m, hm, hup⟩ := h.parsed
  obtain ⟨method, target, junk', rest, hline, rfl⟩ := h.line
  have hend : headerEnd <:+ req.block := List.isSuffixOf_iff_suffix.mp req.piece.1
  have hlisted : srv.around.wsRoutes.contains (uriText target) = true :=
    List.contains_iff_mem.mpr h.listed
  obtain ⟨hshows, -⟩ := httpMessage_shows req.block_lt hend hline hm
  obtain ⟨-, -, -, hversion, -⟩ := requestLine_full [] 0 hend hline
  have hresult : resultOf srv.around.routes req = .ok m := by
    rw [resultOf, hm, ok_bind, if_neg (by rw [hup]; simp)]
    rfl
  obtain ⟨-, -, -, -, -, hkey, -⟩ := resultOf_upgrade req hresult hup
  have hsize := httpMessage_size hm
  have hshows' : Shows (m.counted n).recv.s (m.counted n).req method target version := hshows
  have huri : deref (m.counted n).req.requestUri >>= str (m.counted n).recv.s =
      .ok (uriText target) := hshows'.str_uri
  have hup' : (m.counted n).outcome = .upgrade version key := hup
  have hmessage : httpMessage sock.recv srv.around.routes = .ok (m.counted n) := by
    rw [hrecv, counted, httpMessage_counted, hm]
    rfl
  refine ⟨(m.counted n).recv, hsize.sLen, ?_, ?_, ?_, ?_⟩
  · change m.recv.sLen.toNat ≤ m.recv.s.length
    rw [hsize.sLen, hsize.length]
    exact (length_counted (c := 0) req.block_lt.le).ge
  · exact httpMessage_upgrade hm hup
  · have hcall : httpMessage sock.recv (srv.at k junk).routes = .ok (m.counted n) := hmessage
    have hmem : (srv.at k junk).wsRoutes.contains (uriText target) = true := hlisted
    simp only [HttpSocket.complete, huser, hcall, HttpSocket.serve, hup', HttpSocket.websocket,
      htype, if_true, HttpSocket.websocketConnect, huri, hmem, Option.isSome_some]
  · obtain ⟨send', hwrite⟩ := (hshows'.upgrade hversion hkey hsha1 srv.arrays
      srv.around.wsRoutes send).2 ⟨hsend, fun hnot => absurd h.listed hnot⟩
    refine ⟨send', ?_⟩
    simp only [HttpSocket.completeWrites, huser, hmessage, ok_bind, HttpSocket.serveWrites, hup',
      hwrite, if_pos h.listed, List.append_nil]
    rfl

/-- What a wake-up while the header block is read makes of a connection. -/
inductive HeaderWake (srv : WebServer) (req : HttpRequest sLen) (version key uri : List UInt8)
    (sock : HttpSocket) (send : TstData) (future tail : List UInt8) (r : HttpReturn)
    (d : List Delivery) (w : Except Fault Written) : Prop
  | more (y u : List UInt8) (n : UInt32)
      (hr : r = {
        sock := { sock with recv := counted sLen y n, unread := u }
        served := .answer .suspend
        parsed := true })
      (hd : d = []) (hw : w = .ok { send }) (hy : y.length < sLen.toNat)
      (hopen : Open messageComplete y) (hstream : y ++ (u ++ future) = req.block ++ tail)
  | upgraded (recv : TstData) (u : List UInt8) (send' : TstData)
      (hr : r = {
        sock := { sock with
          recv, unread := u, func := some .websocket, type := .websocket
          user := some (.ws {} (some uri)) }
        served := .answer .suspend
        parsed := true })
      (hd : d = [])
      (hw : w = .ok { 
        send := send'
        sent := upgradeText version (encoded (srv.sha1 (keyText key))) })
      (hready : ({ sd := sock.sd, recv, unread := u } : WsRecv).Ready)
      (hstream : u ++ future = tail)

theorem Asks.wake (h : Asks srv req version key uri) (k : Nat) (junk : Nat → UInt8)
    (hsha1 : ∀ text, (srv.sha1 text).length = 20) (hrecv : sock.recv = counted sLen x n)
    (hfunc : sock.func = none) (htype : sock.type = .sub) (huser : sock.user = none)
    (hx : x.length < sLen.toNat) (hopen : Open messageComplete x) {tail : List UInt8}
    (hstream : x ++ (sock.unread ++ future) = req.block ++ tail) (he : e.epollin = true)
    (hpos : 0 < sock.unread.length) (hlt : sock.unread.length < 2 ^ 31) {send : TstData}
    (hsend : 129 < send.s.length) :
    let count := sock.unread.length
    let kernel := arrived sock.unread count
    HeaderWake srv req version key uri sock send future tail
      (sock.wake e count kernel (srv.at k junk))
      (sock.deliveries e count kernel (srv.at k junk))
      (sock.writes e count kernel srv k junk send) := by
  intro count kernel
  have hof : (UInt32.ofNat count).toNat = count := by
    rw [UInt32.toNat_ofNat']
    omega
  have hn₀ : UInt32.ofNat count ≠ 0 := by
    intro h0
    rw [h0] at hof
    exact absurd hof (Nat.ne_of_lt hpos)
  have hmove := transferred_counted hrecv he count kernel
  have hdeliveries : sock.deliveries e count kernel (srv.at k junk) = [] := by
    simp only [HttpSocket.deliveries, hmove, if_true, HttpSocket.frameCall, hfunc, Option.elim_none]
  have hwrites : sock.writes e count kernel srv k junk send =
      { sock with recv := counted sLen x (UInt32.ofNat count) }.httpOwnWrites e srv send := by
    simp only [HttpSocket.writes, hmove, if_true, hfunc]
  rw [hdeliveries, hwrites, wake_counted hrecv he hfunc]
  obtain ⟨y, u, hreceive, hbytes, hend, -⟩ := receive_counted
    { sock with recv := counted sLen x (UInt32.ofNat count) } rfl hn₀ (hof.trans_lt hlt) hof.le
    hx hopen
  have hmoved : y ++ (u ++ future) = req.block ++ tail := by
    rw [← hstream, ← List.append_assoc, hbytes, List.append_assoc]
  rcases hend with hpiece | hstill
  · obtain rfl : y = req.block := hpiece.eq req.piece hmoved
    obtain ⟨recv, hsLen, hwf, hidle, hcomplete, send', hwrite⟩ := h.complete
      { sock with recv := counted sLen req.block (UInt32.ofNat count), unread := u }
      k junk hsha1 rfl htype huser send hsend
    rw [httpOwn_counted he hn₀ hreceive req.block_lt, if_pos hpiece.1,
      httpOwnWrites_counted he hn₀ hreceive req.block_lt, if_pos hpiece.1, hcomplete, hwrite]
    refine .upgraded recv u send' rfl rfl rfl ⟨rfl, ?_, hwf, ?_⟩ (List.append_cancel_left hmoved)
    · change ¬ recv.comLen < recv.reqLen
      rw [hidle]
      exact UInt32.not_lt_zero
    · exact hsLen ▸ h.room
  · have hy : y.length < sLen.toNat := (hstill.length_lt req.piece hmoved).trans req.block_lt
    rw [httpOwn_counted he hn₀ hreceive hy, hstill.done_eq, if_neg Bool.false_ne_true,
      httpOwnWrites_counted he hn₀ hreceive hy, hstill.done_eq, if_neg Bool.false_ne_true]
    exact .more y u _ rfl rfl rfl hy hstill hmoved

end Request

-- ════════════════════════════════════════════════════════════════════════
-- The frames
-- ════════════════════════════════════════════════════════════════════════

/-- What the user function writes, and what it answers, in its calls. -/
def WebServer.replies (srv : WebServer) (uri : List UInt8) (ds : List Delivery) : List UInt8 :=
  ds.zipIdx.flatMap fun p => (srv.answer uri p.2 p.1).1

def WebServer.answers (srv : WebServer) (uri : List UInt8) (ds : List Delivery) : List TstStat :=
  ds.zipIdx.map fun p => (srv.answer uri p.2 p.1).2

section Talk

variable {srv : WebServer} {uri : List UInt8} {sock : HttpSocket} {info : WsInfo} {e : Events}
  {k : Nat} {junk : Nat → UInt8} {f : Frame} {future tail : List UInt8} {w : WsRecv}

theorem replies_concat (ds : List Delivery) (d : Delivery) :
    srv.replies uri (ds ++ [d]) = srv.replies uri ds ++ (srv.answer uri ds.length d).1 := by
  simp [WebServer.replies, List.zipIdx_append]

theorem answers_concat (ds : List Delivery) (d : Delivery) :
    srv.answers uri (ds ++ [d]) = srv.answers uri ds ++ [(srv.answer uri ds.length d).2] := by
  simp [WebServer.answers, List.zipIdx_append]

/-- `websocket()` itself writes to a connection only as it gives it up. -/
theorem websocket_sent (h : (w.websocket junk (some alwaysSuspend)).next ≠ .disconnect) :
    (w.websocket junk (some alwaysSuspend)).sent = [] := by
  rw [WsRecv.websocket] at h ⊢
  by_cases hstart : w.info.step = 0
  · simp only [if_pos hstart] at h ⊢
    by_cases hlarge : w.readStart.readLen.2 = 10 ∧ w.readStart.readLen.1.info.dataLen > 10485760
    · rw [if_pos hlarge] at h
      exact absurd rfl h
    · rw [if_neg hlarge]
      split
      · rfl
      · rfl
  · rw [if_neg hstart]
    rfl

theorem wake_sent (h : (w.wake junk (some alwaysSuspend) e).next ≠ .disconnect) :
    (w.wake junk (some alwaysSuspend) e).sent = [] := by
  simp only [WsRecv.wake] at h ⊢
  split
  · next hrun =>
    rw [if_pos hrun] at h
    exact websocket_sent h
  · rfl

theorem Advances.suspends {r : WsResult} (h : Advances f future tail r) : r.next = .suspend := by
  cases h with
  | suspended hnext _ _ _ _ => exact hnext
  | handed _ h _ => exact h.next

/-- A session, as the run of the reception of frames. -/
def WebLink.link (l : WebLink) (info : WsInfo) : Link where
  conn := l.sock.wsRecv info
  future := l.future

end Talk

/-- What holds of a session at all times: its request is being received, or `done` has been handed
over and `todo` is to come. -/
inductive WebLink.Follows {sLen : UInt32} (srv : WebServer) (req : HttpRequest sLen)
    (reply uri : List UInt8) (fs : List Frame) (l : WebLink) : Prop
  | request (x : List UInt8) (n : UInt32) (hrecv : l.sock.recv = counted sLen x n)
      (hfunc : l.sock.func = none) (htype : l.sock.type = .sub) (huser : l.sock.user = none)
      (hx : x.length < sLen.toNat) (hopen : Open messageComplete x)
      (hstream : x ++ (l.sock.unread ++ l.future) = req.block ++ stream fs)
      (hsend : 129 < l.send.s.length) (hnone : l.delivered = []) (hsent : l.sent = [])
      (hcalls : l.calls = []) (hended : l.ended = false) (hfault : l.fault = false)
  | frames (done todo : List Frame) (hfs : fs = done ++ todo)
      (hdone : l.delivered.map Delivery.seen = done.map Frame.sent)
      (hsent : l.sent = reply ++ srv.replies uri l.delivered)
      (hbefore : .disconnect ∉ srv.answers uri l.delivered.dropLast)
      (hended : l.ended = true ↔ .disconnect ∈ srv.answers uri l.delivered)
      (hcalls : l.calls = []) (hfault : l.fault = false)
      (hgo : l.ended = false → ∃ info, l.sock.Upgraded info uri ∧ (l.link info).Expects todo)

section Step

variable {sLen : UInt32} {srv : WebServer} {req : HttpRequest sLen} {version key uri : List UInt8}
  {fs : List Frame} {l l' : WebLink} {f : Frame} {todo : List Frame} {w : WsRecv}
  {more : List UInt8}

/-- What has been received does not depend on what is unread. -/
theorem WsRecv.Ready.moved (h : w.Ready) (sd : Nat) (unread : List UInt8) :
    ({ w with sd, unread } : WsRecv).Ready := ⟨h.step, h.idle, h.wf, h.room⟩

theorem WsRecv.Receiving.moved (h : w.Receiving f more) (sd : Nat) (unread : List UInt8) :
    ({ w with sd, unread } : WsRecv).Receiving f more where
  opened := ⟨h.opened.opcode, h.opened.isText, h.opened.dataLen, h.opened.isMasked, h.opened.mask,
    h.opened.data, h.opened.step, h.opened.wf, h.opened.room, h.opened.fits⟩
  pending := h.pending
  total := h.total
  body := h.body

theorem take_append_drop_mid (u future : List UInt8) (n : Nat) :
    u ++ future.take n ++ future.drop n = u ++ future := by
  rw [List.append_assoc, List.take_append_drop]

theorem mem_answers_of_dropLast {ds : List Delivery} {a : TstStat}
    (h : a ∈ srv.answers uri ds.dropLast) : a ∈ srv.answers uri ds := by
  rcases List.eq_nil_or_concat ds with rfl | ⟨ds, d, rfl⟩
  · exact h
  · rw [List.concat_eq_append, List.dropLast_concat] at h
    rw [List.concat_eq_append, answers_concat]
    exact List.mem_append_left _ h

/-- Bytes arrive. -/
theorem WebLink.Follows.arrive {reply : List UInt8} (hl : l.Follows srv req reply uri fs)
    (n : Nat) :
    ({ l with
      sock := { l.sock with unread := l.sock.unread ++ l.future.take n }
      future := l.future.drop n } : WebLink).Follows srv req reply uri fs := by
  cases hl with
  | request x n' hrecv hfunc htype huser hx hopen hstream hsend hnone hsent hcalls hended hfault =>
    refine .request x n' hrecv hfunc htype huser hx hopen ?_ hsend hnone hsent hcalls hended hfault
    rw [← hstream]
    exact congrArg (x ++ ·) (take_append_drop_mid ..)
  | frames done todo hfs hdone hsent hbefore hended hcalls hfault hgo =>
    refine .frames done todo hfs hdone hsent hbefore hended hcalls hfault fun hon => ?_
    obtain ⟨info, hup, hexp⟩ := hgo hon
    refine ⟨info, hup.moved _ _, ?_⟩
    cases hexp with
    | ready h hstream => exact .ready (h.moved _ _) ((take_append_drop_mid ..).trans hstream)
    | receiving h hstream =>
      exact .receiving (h.moved _ _) ((take_append_drop_mid ..).trans hstream)

/-- A wake-up while frames are received. -/
theorem WebLink.Follows.frame (req : HttpRequest sLen) {reply : List UInt8} {info : WsInfo}
    {done : List Frame} {e : Events} {junk : Nat → UInt8}
    (hans : ∀ k d, (srv.answer uri k d).2 ≠ .run) (hup : l.sock.Upgraded info uri)
    (hfs : fs = done ++ f :: todo)
    (hdone : l.delivered.map Delivery.seen = done.map Frame.sent)
    (hsent : l.sent = reply ++ srv.replies uri l.delivered)
    (hon : .disconnect ∉ srv.answers uri l.delivered) (hcalls : l.calls = [])
    (hpos : 0 < l.sock.unread.length) (hlt : l.sock.unread.length < 2 ^ 31)
    (hadv : Advances f l.future (stream todo)
      ((l.sock.wsRecv info).wake junk (some alwaysSuspend) e)) :
    let n := l.sock.unread.length
    let k := arrived l.sock.unread n
    let c := srv.at l.delivered.length junk
    ∃ w, l.sock.writes e n k srv l.delivered.length junk l.send = .ok w ∧
      ({ l with
        sock := (l.sock.wake e n k c).sock
        calls := l.calls ++ (l.sock.wake e n k c).calls
        delivered := l.delivered ++ l.sock.deliveries e n k c
        ended := !(l.sock.wake e n k c).served.goesOn
        fault := !(l.sock.wake e n k c).served.answered
        send := w.send
        sent := l.sent ++ w.sent } : WebLink).Follows srv req reply uri fs := by
  intro n k c
  obtain ⟨r, hr⟩ : ∃ r, r = (l.sock.wsRecv info).wake junk (some alwaysSuspend) e := ⟨_, rfl⟩
  have hnone : r.sent = [] := by
    rw [hr]
    apply wake_sent
    rw [hadv.suspends]
    decide
  have hanswered := wake_answered (l.sock.wsRecv info) junk e
    (f := fun d => (srv.answer uri l.delivered.length d).2) (hans l.delivered.length)
  rw [← hr] at hanswered hadv
  have hwake := hup.wake srv e junk hpos hlt l.delivered.length l.send
  simp only [hanswered] at hwake
  cases hadv with
  | suspended hnext hnil more hrecv hstream =>
    have hwait : (answered (fun d => (srv.answer uri l.delivered.length d).2) r).next =
        .suspend := by
      simp only [answered, hnil, List.head?_nil, Option.map_none, Option.getD_none, hnext]
    obtain ⟨hsock, hdeliveries, hwrites⟩ := hwake (by rw [hwait]; decide)
    refine ⟨_, hwrites, ?_⟩
    rw [hsock, hdeliveries, hwait]
    simp only [answered, hnil, hnone, List.flatMap_nil, List.append_nil]
    refine .frames done (f :: todo) hfs hdone hsent (fun hmem => ?_) ?_ hcalls rfl fun _ => ?_
    · exact hon (mem_answers_of_dropLast hmem)
    · exact ⟨fun h => absurd h Bool.false_ne_true, fun h => absurd h hon⟩
    · exact ⟨r.conn.info, ⟨hup.func, hup.type, rfl⟩,
        .receiving (hrecv.moved l.sock.sd r.conn.unread) hstream⟩
  | handed rest h hstream =>
    obtain ⟨d, hd, hreceived⟩ := h.delivered
    have hanswer : (answered (fun d => (srv.answer uri l.delivered.length d).2) r).next =
        (srv.answer uri l.delivered.length d).2 := by
      simp only [answered, hd, List.head?_cons, Option.map_some, Option.getD_some]
    obtain ⟨hsock, hdeliveries, hwrites⟩ := hwake (by rw [hanswer]; exact hans _ _)
    refine ⟨_, hwrites, ?_⟩
    rw [hsock, hdeliveries, hanswer]
    simp only [answered, hd, hnone, List.flatMap_singleton, List.append_nil]
    refine .frames (done ++ [f]) todo (by rw [hfs]; simp) ?_ ?_ ?_ ?_ hcalls rfl fun hon' => ?_
    · rw [List.map_append, List.map_append, hdone, List.map_singleton, List.map_singleton,
        hreceived.seen]
    · rw [replies_concat, hsent, List.append_assoc]
    · rw [List.dropLast_concat]
      exact hon
    · rw [answers_concat, List.mem_append, List.mem_singleton]
      simp only [hon, false_or, Served.goesOn, Bool.not_eq_true', decide_eq_false_iff_not, ne_eq,
        not_not]
      exact eq_comm
    · refine ⟨r.conn.info, ⟨hup.func, hup.type, rfl⟩, .ready (h.ready.moved l.sock.sd _) ?_⟩
      exact (congrArg (· ++ l.future) h.unread).trans hstream

/-- One action. -/
theorem WebLink.Follows.step {a : LinkAction}
    (hl : l.Follows srv req (upgradeText version (encoded (srv.sha1 (keyText key)))) uri fs)
    (h : Asks srv req version key uri) (hsha1 : ∀ text, (srv.sha1 text).length = 20)
    (hans : ∀ k d, (srv.answer uri k d).2 ≠ .run) (hok : l.beginOk a)
    (hstep : l.step srv a = some l') :
    l'.Follows srv req (upgradeText version (encoded (srv.sha1 (keyText key)))) uri fs := by
  cases a with
  | arrive n =>
    obtain rfl := Option.some.inj hstep
    exact hl.arrive n
  | wake e junk =>
    rw [WebLink.step] at hstep
    split at hstep
    · next hen =>
      obtain ⟨he, hpos, hlt, hgoing⟩ := hen
      cases hl with
      | request x n hrecv hfunc htype huser hx hopen hstream hsend hnone hsent hcalls =>
        have hwake := h.wake l.delivered.length junk hsha1 hrecv hfunc htype huser hx hopen hstream
          he hpos hlt hsend
        cases hwake with
        | more y u n' hr hd hw hy hstill hstream' =>
          simp only [hr, hd, hw] at hstep
          obtain rfl := Option.some.inj hstep
          exact .request y n' rfl hfunc htype huser hy hstill hstream' hsend
            (by rw [hnone]; rfl) (by rw [hsent]; rfl) (by rw [hcalls]; rfl) rfl rfl
        | upgraded recv u send' hr hd hw hready hstream' =>
          simp only [hr, hd, hw] at hstep
          obtain rfl := Option.some.inj hstep
          simp only [hnone, hsent, hcalls, List.nil_append]
          refine .frames [] fs rfl rfl ?_ ?_ ?_ rfl rfl fun _ => ?_
          · exact (List.append_nil _).symm
          · exact List.not_mem_nil
          · exact ⟨fun hend => absurd hend Bool.false_ne_true,
              fun hmem => absurd hmem List.not_mem_nil⟩
          · exact ⟨{}, ⟨rfl, rfl, rfl⟩, .ready hready hstream'⟩
      | frames done todo hfs hdone hsent hbefore hended hcalls hfault hgo =>
        obtain ⟨info, hup, hexp⟩ := hgo hgoing
        have hin : e.input = true := by
          rw [Events.input, he]
          rfl
        have hu : (l.link info).conn.unread ≠ [] := List.length_pos_iff.mp hpos
        have hbegin : Tst.beginOk (l.link info) (.wake e junk) := by
          intro (hstart : info.step = 0)
          refine hok ?_
          rw [HttpSocket.frameStep, hup.user, ← hstart]
        have hon : .disconnect ∉ srv.answers uri l.delivered := fun hmem =>
          absurd (hended.mpr hmem) (by rw [hgoing]; exact Bool.false_ne_true)
        obtain ⟨f, rest, rfl, hcase⟩ := hexp.wake_cases hbegin hu
        have hadv : Advances f l.future (stream rest)
            ((l.sock.wsRecv info).wake junk (some alwaysSuspend) e) := by
          rcases hcase with ⟨hready, u, hunread, hfirst, hrest⟩ | ⟨more, hrecv, hstream⟩
          · exact hready.advances hin hunread hfirst hrest
          · exact hrecv.advances hin hu hstream
        obtain ⟨w, hw, hfollows⟩ :=
          WebLink.Follows.frame req hans hup hfs hdone hsent hon hcalls hpos hlt hadv
        simp only [hw] at hstep
        obtain rfl := Option.some.inj hstep
        exact hfollows
    · exact absurd hstep (by simp)

end Step

end Tst
