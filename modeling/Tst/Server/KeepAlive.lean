import Tst.Http.Body
import Tst.Http.Buffer
import Tst.Lib.Execution
import Tst.Server.Connection

/-!
# Requests on one connection

Requests follow one another on a connection. `http()` reads the header block of a request
byte by byte, and leaves its body to the worker; after the route has been called the
connection is as it was at its beginning, but for the count that `tst_main` stores.

## Main definitions

- `HttpRequest` — a header block and the body that it announces
- `callsOf` — the call that a request leads to
- `HttpLink` — a connection and the bytes that are still on their way to it
- `ServesStream` — the calls are those of the requests, however the bytes arrive

## Main results

- `http_stream_iff` — `ServesStream` holds of a receive buffer below 2 GiB
-/

namespace Tst

open Bytes CString Execution Framing

/-- A header block, and a body as long as its `Content-Length` says. Both fit in a receive
buffer of `sLen` bytes. -/
structure HttpRequest (sLen : UInt32) where
  block : List UInt8
  body : List UInt8
  piece : Piece messageComplete block
  declared : declaredLength block = body.length
  fits : block.length + body.length < sLen.toNat

namespace HttpRequest

variable {sLen : UInt32}

def bytes (r : HttpRequest sLen) : List UInt8 := r.block ++ r.body

end HttpRequest

/-- The bytes of requests that are sent one after the other. -/
def requestStream {sLen : UInt32} (rs : List (HttpRequest sLen)) : List UInt8 :=
  rs.flatMap HttpRequest.bytes

/-- A buffer that has been left to the worker, with the part `y` of the body. -/
def withBody (d : TstData) (y : List UInt8) (c : UInt32) : TstData :=
  { d with
    comLen := UInt32.ofNat y.length
    checkedLen := c
    s := splice d.s d.reqPos.toNat y }

/-- The call of a route, if that is what `http()` has come to. -/
def HttpResult.call (r : HttpResult) : List HttpCall :=
  match r.outcome with
  | .route uri => [{ uri, req := r.req, recv := { r.recv with checkedLen := 0 } }]
  | _ => []

/-- The calls that a request leads to: from its header block, or, where that announces a body,
from the body. -/
def callsOf {sLen : UInt32} (c : Surroundings) (r : HttpRequest sLen) : List HttpCall :=
  match httpMessage (holding sLen r.block) c.routes with
  | .error _ => []
  | .ok m =>
    if m.outcome = .body then
      match httpBody (withBody m.recv r.body 0) m.req c.routes with
      | .error _ => []
      | .ok b => b.call
    else m.call

/-- A connection, the bytes that have not arrived, and the calls of routes. -/
structure HttpLink where
  sock : HttpSocket
  future : List UInt8
  calls : List HttpCall := []
  ended : Bool := false

/-- Bytes arrive; or the connection is woken with the event bits `e`, when `n` unread bytes
are counted by `tst_main`, and `m` by the worker if it is to read itself. -/
inductive HttpAction
  | arrive (n : Nat)
  | wake (e : Events) (n m : Nat)

/-- What the worker finds: `m` bytes are counted, and reading them succeeds. -/
def arrived (unread : List UInt8) (m : Nat) : Kernel where
  siocinq := some (UInt32.ofNat m)
  read n := some ⟨unread.take n, List.length_take_le ..⟩
  write _ := none

namespace HttpLink

/-- A new connection, on which these bytes will arrive. -/
def start (sd : Nat) (sLen : UInt32) (stream : List UInt8) : HttpLink where
  sock := .accepted sd sLen
  future := stream

/-- One action. `SIOCINQ` counts into an `int`, and a wake-up for input finds at least one
unread byte. -/
def step (c : Surroundings) (l : HttpLink) : HttpAction → Option HttpLink
  | .arrive n =>
    some { l with
      sock := { l.sock with unread := l.sock.unread ++ l.future.take n }
      future := l.future.drop n }
  | .wake e n m =>
    if e.epollin = true ∧ 0 < n ∧ n < 2 ^ 31 ∧ n ≤ l.sock.unread.length ∧
        m ≤ l.sock.unread.length ∧ l.ended = false then
      let r := l.sock.wake e n (arrived l.sock.unread m) c
      some { l with
        sock := r.sock
        calls := l.calls ++ r.calls
        ended := !r.served.goesOn }
    else none

/-- Everything has arrived and has been read, or the connection has come to an end. -/
def Complete (l : HttpLink) : Prop := (l.future = [] ∧ l.sock.unread = []) ∨ l.ended = true

end HttpLink

-- ════════════════════════════════════════════════════════════════════════
-- The end of a request
-- ════════════════════════════════════════════════════════════════════════

/-- What the connection is to receive. -/
inductive HttpPhase (c : Surroundings) (sLen : UInt32) (sock : HttpSocket) (future : List UInt8) :
    List (HttpRequest sLen) → Prop
  | header {todo : List (HttpRequest sLen)} (x : List UInt8) (n : UInt32)
      (hfunc : sock.func = none) (huser : sock.user = none) (hrecv : sock.recv = counted sLen x n)
      (hx : x.length < sLen.toNat) (hopen : Open messageComplete x)
      (hstream : x ++ (sock.unread ++ future) = requestStream todo) :
      HttpPhase c sLen sock future todo
  | body {r : HttpRequest sLen} {todo : List (HttpRequest sLen)} (y : List UInt8) (n : UInt32)
      (m : HttpResult) (hm : httpMessage (holding sLen r.block) c.routes = .ok m)
      (hbody : m.outcome = .body) (hfunc : sock.func = none)
      (huser : sock.user = some (.request m.req)) (hrecv : sock.recv = withBody m.recv y n)
      (hy : y.length < r.body.length)
      (hstream : y ++ (sock.unread ++ future) = r.body ++ requestStream todo) :
      HttpPhase c sLen sock future (r :: todo)
  | last (hstream : sock.unread ++ future = []) : HttpPhase c sLen sock future []

/-- A call has led to these calls of routes, it has left the bytes `u` unread, and the
requests `todo` are still to come. -/
structure HttpReturn.Leads (c : Surroundings) (sLen : UInt32) (r : HttpReturn)
    (future u : List UInt8) (calls : List HttpCall) (todo : List (HttpRequest sLen)) : Prop where
  calls : r.calls = calls
  unread : r.sock.unread = u
  phase : if r.served.goesOn then HttpPhase c sLen r.sock future todo else todo = []

/-- The request leads to one call, and the route keeps the connection. -/
def Suspends {sLen : UInt32} (c : Surroundings) (r : HttpRequest sLen) : Prop :=
  ∃ call, callsOf c r = [call] ∧ c.route call = .suspend

@[simp] theorem goesOn_suspend : (Served.answer .suspend).goesOn = true := rfl

section Serve

variable {c : Surroundings} {sLen : UInt32} {sock : HttpSocket} {r : HttpResult}
  {future : List UInt8} {todo : List (HttpRequest sLen)}

/-- A request that gives way to a WebSocket calls no route and reads nothing. -/
theorem websocket_request {req : RequestInfo} (huser : sock.user = some (.request req)) :
    (sock.websocket c).calls = [] ∧ (sock.websocket c).sock.unread = sock.unread := by
  rw [HttpSocket.websocket]
  split
  · rw [HttpSocket.websocketConnect, huser]
    cases huri : deref req.requestUri >>= str sock.recv.s with
    | error f => simp only [huri, and_self]
    | ok uri => simp only [huri, and_self]
  · rw [HttpSocket.websocketFrames, huser]
    exact ⟨rfl, rfl⟩

theorem serve_calls (sock : HttpSocket) (c : Surroundings) (r : HttpResult) :
    (sock.serve c r).calls = r.call ∧ (sock.serve c r).sock.unread = sock.unread := by
  rw [HttpSocket.serve, HttpResult.call]
  cases r.outcome with
  | respond code => exact ⟨rfl, rfl⟩
  | body => exact ⟨rfl, rfl⟩
  | upgrade key version => exact websocket_request rfl
  | route uri =>
    refine ⟨rfl, ?_⟩
    simp only [HttpSocket.callRoute]
    split
    · rfl
    · rfl

/-- After a route that keeps the connection the next request is waited for. -/
theorem serve_suspended (sock : HttpSocket) {call : HttpCall} (hcall : r.call = [call])
    (hroute : c.route call = .suspend) : (sock.serve c r).served = .answer .suspend ∧
      (sock.serve c r).sock = { sock with recv := r.recv.resetData, user := none } := by
  rw [HttpResult.call] at hcall
  cases houtcome : r.outcome with
  | respond code => simp [houtcome] at hcall
  | body => simp [houtcome] at hcall
  | upgrade key version => simp [houtcome] at hcall
  | route uri =>
    simp only [houtcome] at hcall
    obtain rfl := List.singleton_inj.mp hcall
    have hnext : (TstStat.suspend ≠ .disconnect) = True := by simp
    simp only [HttpSocket.serve, houtcome, HttpSocket.callRoute, hroute, hnext, if_true, and_self]

/-- A request has been read to its end. -/
theorem serve_leads (hsize : SameSize (counted sLen [] r.recv.checkedLen) r.recv)
    (hfunc : sock.func = none) (hpos : 0 < sLen.toNat)
    (hnext : todo = [] ∨ ∃ call, r.call = [call] ∧ c.route call = .suspend)
    (hstream : sock.unread ++ future = requestStream todo) :
    (sock.serve c r).Leads c sLen future sock.unread r.call todo := by
  obtain ⟨hcalls, hunread⟩ := serve_calls sock c r
  refine ⟨hcalls, hunread, ?_⟩
  rcases hnext with rfl | ⟨call, hcall, hroute⟩
  · split
    · exact .last (by rw [hunread]; exact hstream)
    · rfl
  · obtain ⟨hserved, hsock⟩ := serve_suspended sock hcall hroute
    have hlen : r.recv.s.length = r.recv.sLen.toNat := by
      rw [hsize.length, hsize.sLen, length_counted (Nat.zero_le _)]
      rfl
    have hreset := resetData_eq hlen
    rw [hsize.sLen] at hreset
    rw [hserved, hsock, if_pos goesOn_suspend]
    exact .header [] r.recv.checkedLen hfunc rfl hreset hpos (.nil rfl) hstream

/-- The connection waits for the rest of a header block or of a body. -/
theorem leads_waiting (h : HttpPhase c sLen sock future todo) :
    ({ sock, served := .answer .suspend } : HttpReturn).Leads c sLen future sock.unread [] todo := by
  refine ⟨rfl, rfl, ?_⟩
  rw [if_pos goesOn_suspend]
  exact h

/-- A request that faults leads to no call. -/
theorem leads_fault {f : Fault} (htodo : todo = []) :
    ({ sock, served := .fault f } : HttpReturn).Leads c sLen future sock.unread [] todo :=
  ⟨rfl, rfl, htodo⟩

/-- Nothing follows a request whose calls are known, or a route keeps the connection. -/
theorem next_of_routes {r : HttpRequest sLen} {calls : List HttpCall}
    (hroutes : ∀ r' ∈ (r :: todo).dropLast, Suspends c r') (hcalls : callsOf c r = calls) :
    todo = [] ∨ ∃ call, calls = [call] ∧ c.route call = .suspend := by
  cases todo with
  | nil => exact .inl rfl
  | cons r' todo =>
    right
    rw [← hcalls]
    exact hroutes r (List.mem_cons_self ..)

/-- A request without calls is the last one. -/
theorem nil_of_routes {r : HttpRequest sLen}
    (hroutes : ∀ r' ∈ (r :: todo).dropLast, Suspends c r') (hcalls : callsOf c r = []) :
    todo = [] := by
  rcases next_of_routes hroutes hcalls with h | ⟨call, hcall, -⟩
  · exact h
  · exact absurd hcall (List.cons_ne_nil call []).symm

end Serve

-- ════════════════════════════════════════════════════════════════════════
-- One wake-up
-- ════════════════════════════════════════════════════════════════════════

section Wake

variable {c : Surroundings} {sLen n : UInt32} {sock : HttpSocket} {x : List UInt8}
  {future : List UInt8} {r : HttpRequest sLen} {todo : List (HttpRequest sLen)}

theorem HttpRequest.block_lt (r : HttpRequest sLen) : r.block.length < sLen.toNat := by
  have hfits := r.fits
  omega

theorem requestStream_cons (r : HttpRequest sLen) (rs : List (HttpRequest sLen)) :
    requestStream (r :: rs) = r.block ++ (r.body ++ requestStream rs) := by
  rw [requestStream, List.flatMap_cons, HttpRequest.bytes, List.append_assoc]
  rfl

/-- The free space and the count, as `int`s. -/
theorem remain_eq (hx : x.length < sLen.toNat) : HttpSocket.remain (counted sLen x n) =
    min (Int.bmod (sLen.toNat - x.length : Nat) (2 ^ 32)) (Int.bmod n.toNat (2 ^ 32)) := by
  have hcom : (counted sLen x n).comLen.toNat = x.length := comLen_holding hx
  have hreqPos : (counted sLen x n).reqPos.toNat = 0 := rfl
  have hfree : (sLen - (counted sLen x n).reqPos - (counted sLen x n).comLen).toNat =
      sLen.toNat - x.length := by
    have hmax := sLen.toNat_lt
    rw [UInt32.toNat_sub, UInt32.toNat_sub, hcom, hreqPos]
    omega
  rw [← hfree]
  rfl

theorem remain_counted (hx : x.length < sLen.toNat) :
    x.length + (HttpSocket.remain (counted sLen x n)).toNat ≤ sLen.toNat ∧
      (HttpSocket.remain (counted sLen x n)).toNat ≤ n.toNat := by
  obtain ⟨hfree, hcount⟩ := toNat_min_bmod_le (sLen.toNat - x.length) n.toNat
  rw [remain_eq hx]
  exact ⟨by omega, hcount⟩

theorem inBuffer_counted (hx : x.length < sLen.toNat) :
    HttpSocket.inBuffer (counted sLen x n) = true := by
  have hcom : (counted sLen x n).comLen.toNat = x.length := comLen_holding hx
  have hlt : (counted sLen x n).comLen < sLen := UInt32.lt_iff_toNat_lt.mpr (by omega)
  rw [HttpSocket.inBuffer, decide_eq_true_eq]
  change 0 + (counted sLen x n).comLen < sLen
  rw [UInt32.zero_add]
  exact hlt

/-- With a buffer below 2 GiB a byte is asked for. -/
theorem remain_pos (hx : x.length < sLen.toNat) (hsLen : sLen.toNat < 2 ^ 31) (hn₀ : n ≠ 0)
    (hn : n.toNat < 2 ^ 31) : 0 < (HttpSocket.remain (counted sLen x n)).toNat := by
  have hne : n.toNat ≠ 0 := fun h0 => hn₀ (UInt32.toNat_inj.mp h0)
  rw [remain_eq hx, Int.bmod_eq_of_le (by omega) (by omega), Int.bmod_eq_of_le (by omega) (by omega)]
  omega

/-- An empty buffer of 2 GiB or more has no space, as an `int`. -/
theorem remain_nil (hsLen : 2 ^ 31 ≤ sLen.toNat) :
    (HttpSocket.remain (counted sLen [] n)).toNat = 0 := by
  have hlt := sLen.toNat_lt
  have hneg : Int.bmod (sLen.toNat - ([] : List UInt8).length : Nat) (2 ^ 32) < 0 := by
    rw [List.length_nil, Nat.sub_zero, Int.bmod_eq_emod]
    split
    · omega
    · omega
  rw [remain_eq (by rw [List.length_nil]; omega)]
  omega

theorem receive_eq (sock : HttpSocket) {y u : List UInt8} (hrecv : sock.recv = counted sLen x n) (hn₀ : n ≠ 0)
    (hread : readMessage 0 HttpSocket.inBuffer (HttpSocket.remain (counted sLen x n)).toNat
      (counted sLen x n) sock.unread = (counted sLen y n, u)) :
    sock.receive = { sock with recv := counted sLen y n, unread := u } := by
  obtain ⟨hcount, hbase⟩ : sock.recv.checkedLen = n ∧ sock.recv.reqPos = 0 := by
    rw [hrecv]
    exact ⟨rfl, rfl⟩
  rw [HttpSocket.receive, if_pos (hcount ▸ hn₀), hbase, hrecv, hread]

/-- What the loop over the bytes of a header block reads. -/
theorem receive_counted (sock : HttpSocket) (hrecv : sock.recv = counted sLen x n) (hn₀ : n ≠ 0)
    (hn : n.toNat < 2 ^ 31) (hle : n.toNat ≤ sock.unread.length) (hx : x.length < sLen.toNat)
    (hopen : Open messageComplete x) :
    ∃ y u, sock.receive = { sock with recv := counted sLen y n, unread := u } ∧
      y ++ u = x ++ sock.unread ∧ (Piece messageComplete y ∨ Open messageComplete y) ∧
      (sLen.toNat < 2 ^ 31 → u.length < sock.unread.length) := by
  obtain ⟨hroom, hasked⟩ := remain_counted (n := n) hx
  have hread := readMessage_counted (c := n) (u := sock.unread) HttpSocket.inBuffer
    (fun y hy => inBuffer_counted hy) hroom (hasked.trans hle)
  obtain ⟨hbytes, hend⟩ := feed_spec (n := (HttpSocket.remain (counted sLen x n)).toNat)
    (l := sock.unread) hopen
  have hlen := congrArg List.length hbytes
  rw [List.length_append, List.length_append] at hlen
  refine ⟨_, _, receive_eq sock hrecv hn₀ hread, hbytes, ?_, fun hsLen => ?_⟩
  · rcases hend with hpiece | ⟨hstill, -⟩
    · exact .inl hpiece
    · exact .inr hstill
  · have hpos := remain_pos hx hsLen hn₀ hn
    rcases hend with hpiece | ⟨-, htake⟩
    · have hlt := hopen.length_lt hpiece hbytes.symm
      omega
    · have hgrown := congrArg List.length htake
      have hne : n.toNat ≠ 0 := fun h0 => hn₀ (UInt32.toNat_inj.mp h0)
      rw [List.length_append, List.length_take] at hgrown
      omega

theorem withBody_nil {d : TstData} (hcom : d.comLen = 0) (n : UInt32) :
    withBody d [] n = { d with checkedLen := n } := by
  rw [withBody, splice_nil, List.length_nil]
  change ({ d with comLen := 0, checkedLen := n } : TstData) = _
  rw [← hcom]

/-- The header block of a request is complete. -/
theorem complete_header (sock : HttpSocket) (hrecv : sock.recv = counted sLen r.block n) (hfunc : sock.func = none)
    (huser : sock.user = none) (hroutes : ∀ r' ∈ (r :: todo).dropLast, Suspends c r')
    (hstream : sock.unread ++ future = r.body ++ requestStream todo) :
    ∃ past todo', r :: todo = past ++ todo' ∧
      (sock.complete c).Leads c sLen future sock.unread (past.flatMap (callsOf c)) todo' := by
  have hpos : 0 < sLen.toNat := (Nat.zero_le _).trans_lt r.block_lt
  have hsuffix : headerEnd <:+ r.block := List.isSuffixOf_iff_suffix.mp r.piece.1
  have hcounted : counted sLen r.block n = { holding sLen r.block with checkedLen := n } := rfl
  simp only [HttpSocket.complete, huser, hrecv, hcounted, httpMessage_counted]
  cases hm : httpMessage (holding sLen r.block) c.routes with
  | error f =>
    have hcalls : callsOf c r = [] := by rw [callsOf, hm]
    refine ⟨[r], todo, rfl, ?_⟩
    rw [List.flatMap_singleton, hcalls]
    exact leads_fault (nil_of_routes hroutes hcalls)
  | ok m =>
    have hsize := httpMessage_size hm
    have hsize' : SameSize (counted sLen [] n) (m.counted n).recv := by
      refine ⟨hsize.sLen, hsize.length.trans ?_, rfl⟩
      rw [length_counted (Nat.zero_le _)]
      exact length_counted (c := 0) r.block_lt.le
    by_cases hbody : m.outcome = .body
    · obtain ⟨s, hzero, -, -, -, harm⟩ := message_body r.block_lt hsuffix hm hbody
      have hcom : m.recv.comLen = 0 := by
        rw [harm]
        rfl
      have hlong : 0 < r.body.length := by
        have hdeclared := r.declared
        omega
      refine ⟨[], r :: todo, rfl, ?_⟩
      simp only [Except.map, HttpSocket.serve, HttpResult.counted, hbody]
      apply leads_waiting
      exact .body [] n m hm hbody hfunc rfl (withBody_nil hcom n).symm hlong hstream
    · have hcalls : callsOf c r = (m.counted n).call := by
        rw [callsOf, hm]
        simp only [if_neg hbody]
        rfl
      refine ⟨[r], todo, rfl, ?_⟩
      rw [List.flatMap_singleton, hcalls]
      rcases message_cases r.block_lt hsuffix hm with ⟨code, hcode⟩ | ⟨hzero, -⟩ | ⟨s, hwait, -⟩
      · have hnone : (m.counted n).call = [] := by simp [HttpResult.call, HttpResult.counted, hcode]
        rw [hnone]
        simp only [Except.map, HttpSocket.serve, HttpResult.counted, hcode]
        exact ⟨rfl, rfl, nil_of_routes hroutes (hcalls.trans hnone)⟩
      · have hempty : r.body = [] := by
          have hdeclared := r.declared
          exact List.length_eq_zero_iff.mp (by omega)
        apply serve_leads hsize' hfunc hpos (next_of_routes hroutes hcalls)
        rw [hstream, hempty, List.nil_append]
      · exact absurd hwait hbody

/-- The body of a request is complete. -/
theorem complete_body (sock : HttpSocket) {m : HttpResult} (hm : httpMessage (holding sLen r.block) c.routes = .ok m)
    (hbody : m.outcome = .body) (hrecv : sock.recv = withBody m.recv r.body 0)
    (hfunc : sock.func = none) (huser : sock.user = some (.request m.req))
    (hroutes : ∀ r' ∈ (r :: todo).dropLast, Suspends c r')
    (hstream : sock.unread ++ future = requestStream todo) :
    (sock.complete c).Leads c sLen future sock.unread (callsOf c r) todo := by
  have hpos : 0 < sLen.toNat := (Nat.zero_le _).trans_lt r.block_lt
  have hsize := httpMessage_size hm
  have hcalls : callsOf c r = match httpBody (withBody m.recv r.body 0) m.req c.routes with
      | .error _ => []
      | .ok b => b.call := by
    rw [callsOf, hm]
    simp only [if_pos hbody]
  simp only [HttpSocket.complete, huser, hrecv]
  cases hb : httpBody (withBody m.recv r.body 0) m.req c.routes with
  | error f =>
    rw [hb] at hcalls
    rw [hcalls]
    exact leads_fault (nil_of_routes hroutes hcalls)
  | ok b =>
    rw [hb] at hcalls
    have hsize' := httpBody_size hb
    rw [hcalls]
    refine serve_leads ⟨hsize'.sLen.trans hsize.sLen, ?_, rfl⟩ hfunc hpos
      (next_of_routes hroutes hcalls) hstream
    rw [hsize'.length, length_counted (Nat.zero_le _)]
    change (splice _ _ _).length = _
    rw [length_splice, hsize.length]
    exact length_counted (c := 0) r.block_lt.le

/-- The worker's read for a body of which `y` is there. -/
theorem autoRecv_withBody {d : TstData} {y u : List UInt8} {size m : Nat}
    (hreq : d.reqLen.toNat = size) (hy : y.length < size) :
    ∃ z ask, z <+: u ∧ y.length + z.length ≤ size ∧
      (0 < m → m < 2 ^ 32 → u ≠ [] → z ≠ []) ∧
      (withBody d y n).autoRecv (arrived u m) =
        if y.length + z.length = size then ⟨withBody d (y ++ z) 0, .run, z⟩
        else ⟨withBody d (y ++ z) ask, .suspend, z⟩ := by
  have hlt := d.reqLen.toNat_lt
  have hcom : (withBody d y n).comLen.toNat = y.length := by
    change (UInt32.ofNat y.length).toNat = _
    rw [UInt32.toNat_ofNat']
    omega
  have hroom : ((withBody d y n).reqLen - (withBody d y n).comLen).toNat = size - y.length := by
    change (d.reqLen - (withBody d y n).comLen).toNat = _
    rw [UInt32.toNat_sub_of_le _ _ (UInt32.le_iff_toNat_le.mpr (by omega)), hreq, hcom]
  have hmore : ¬ (withBody d y n).comLen ≥ (withBody d y n).reqLen := by
    change ¬ d.reqLen ≤ (withBody d y n).comLen
    rw [UInt32.le_iff_toNat_le]
    omega
  generalize hask : (withBody d y n).recvAsk (UInt32.ofNat m) = ask
  have hask_le : ask.toNat ≤ size - y.length := by
    have hle := (withBody d y n).recvAsk_le (UInt32.le_of_lt (UInt32.not_le.mp hmore))
      (UInt32.ofNat m)
    rw [hask, hcom] at hle
    change _ ≤ d.reqLen.toNat - _ at hle
    omega
  have hz : (u.take ask.toNat).length ≤ ask.toNat := List.length_take_le ..
  have hadd : addResult (withBody d y n).comLen (some (u.take ask.toNat).length) =
      UInt32.ofNat (y ++ u.take ask.toNat).length := by
    rw [addResult, List.length_append, UInt32.ofNat_add]
    rfl
  have hsplice : splice (withBody d y n).s (withBody d y n).pos (u.take ask.toNat) =
      splice d.s d.reqPos.toNat (y ++ u.take ask.toNat) := by
    rw [← splice_splice, TstData.pos, hcom]
    rfl
  have hfull : UInt32.ofNat (y ++ u.take ask.toNat).length ≥ (withBody d y n).reqLen ↔
      y.length + (u.take ask.toNat).length = size := by
    change d.reqLen ≤ _ ↔ _
    rw [UInt32.le_iff_toNat_le, List.length_append, UInt32.toNat_ofNat']
    omega
  refine ⟨u.take ask.toNat, ask, List.take_prefix .., by omega, fun hm hm' hu => ?_, ?_⟩
  · have hpos : 0 < ask.toNat := by
      rw [← hask, TstData.recvAsk]
      split
      · omega
      · rw [UInt32.toNat_ofNat_of_lt' hm']
        exact hm
    intro hnil
    rcases List.take_eq_nil_iff.mp hnil with hzero | hempty
    · omega
    · exact hu hempty
  · simp only [TstData.autoRecv, if_neg hmore, arrived, hask, Option.map_some, Option.getD_some,
      hadd, hsplice, hfull]
    rfl

theorem HttpReturn.Leads.parsed {r : HttpReturn} {u : List UInt8} {calls : List HttpCall}
    (h : r.Leads c sLen future u calls todo) :
    ({ r with parsed := true } : HttpReturn).Leads c sLen future u calls todo :=
  ⟨h.calls, h.unread, h.phase⟩

/-- The own part of `http()` once the loop has read up to `y`. -/
theorem httpOwn_counted {e : Events} {y u : List UInt8} (he : e.epollin = true)
    (hcount : sock.recv.checkedLen ≠ 0)
    (hreceive : sock.receive = { sock with recv := counted sLen y n, unread := u })
    (hy : y.length < sLen.toNat) : sock.httpOwn e c =
      if messageComplete y then { sock with recv := counted sLen y n, unread := u }.complete c
      else { sock := { sock with recv := counted sLen y n, unread := u }
             served := .answer .suspend } := by
  have hdone : (counted sLen y n).endsMessage (counted sLen y n).reqPos = messageComplete y :=
    endsMessage_counted hy
  simp only [HttpSocket.httpOwn, if_pos he, hreceive, inBuffer_counted hy, hdone, hcount, ne_eq,
    not_false_eq_true, true_and, not_true, if_false]
  cases messageComplete y with
  | true => rfl
  | false => rfl

/-- What `tst_main` and the worker do while a header block is read. -/
theorem wake_counted {e : Events} (hrecv : sock.recv = counted sLen x n) (he : e.epollin = true)
    (hfunc : sock.func = none) (count : Nat) (k : Kernel) : sock.wake e count k c =
      { { sock with recv := counted sLen x (UInt32.ofNat count) }.httpOwn e c with
        parsed := true } := by
  have hin : e.input = true := by
    rw [Events.input, he]
    rfl
  have hhanded : ({ sd := sock.sd, recv := some sock.recv } : TstSocket).handEvents e
      (UInt32.ofNat count) =
      { sd := sock.sd, events := e, recv := some (counted sLen x (UInt32.ofNat count)) } := by
    rw [TstSocket.handEvents, if_pos ⟨hin, rfl⟩, hrecv]
    rfl
  have hidle : (counted sLen x (UInt32.ofNat count)).reqLen = 0 := rfl
  simp only [HttpSocket.wake, hhanded, TstSocket.transfer, hin, if_true, hidle, ne_eq, not_true,
    if_false, Option.getD_some, List.length_nil, List.drop_zero, HttpSocket.http, hfunc]

/-- What `tst_main` and the worker do while a body is received. -/
theorem wake_withBody {e : Events} {d : TstData} {y : List UInt8} (hrecv : sock.recv = withBody d y n)
    (he : e.epollin = true) (hfunc : sock.func = none) (hreq : d.reqLen ≠ 0) (count : Nat)
    (k : Kernel) :
    let r := (withBody d y (UInt32.ofNat count)).autoRecv k
    let sock' : HttpSocket := { sock with recv := r.data, unread := sock.unread.drop r.bytes.length }
    sock.wake e count k c =
      if r.next = .run then { sock'.httpOwn e c with parsed := true }
      else { sock := sock', served := .answer r.next } := by
  have hin : e.input = true := by
    rw [Events.input, he]
    rfl
  have hhanded : ({ sd := sock.sd, recv := some sock.recv } : TstSocket).handEvents e
      (UInt32.ofNat count) =
      { sd := sock.sd, events := e, recv := some (withBody d y (UInt32.ofNat count)) } := by
    rw [TstSocket.handEvents, if_pos ⟨hin, rfl⟩, hrecv]
    rfl
  have hbusy : ((withBody d y (UInt32.ofNat count)).reqLen ≠ 0) = True := eq_true hreq
  simp only [HttpSocket.wake, hhanded, TstSocket.transfer, hin, if_true, hbusy, Option.getD_some,
    HttpSocket.http, hfunc]

/-- The own part of `http()` when the worker has received a body: there is nothing to read. -/
theorem httpOwn_withBody {e : Events} {d : TstData} {y : List UInt8}
    (hrecv : sock.recv = withBody d y 0) (he : e.epollin = true) :
    sock.httpOwn e c = sock.complete c := by
  have hcount : sock.recv.checkedLen = 0 := by
    rw [hrecv]
    rfl
  have hreceive : sock.receive = sock := by
    rw [HttpSocket.receive, if_neg (not_not.mpr hcount)]
  simp only [HttpSocket.httpOwn, if_pos he, hreceive, hcount, ne_eq, not_true, false_and, if_false]

/-- The worker is to fetch as many bytes as the block has announced. -/
theorem reqLen_body {r' : HttpResult} (hm : httpMessage (holding sLen r.block) c.routes = .ok r')
    (hbody : r'.outcome = .body) : r'.recv.reqLen.toNat = r.body.length := by
  have hsuffix : headerEnd <:+ r.block := List.isSuffixOf_iff_suffix.mp r.piece.1
  obtain ⟨s, -, -, -, -, harm⟩ := message_body r.block_lt hsuffix hm hbody
  have hfits := r.fits
  have hlt := sLen.toNat_lt
  have hreq : r'.recv.reqLen = UInt32.ofInt (declaredLength r.block) := by
    rw [harm]
    rfl
  rw [hreq, r.declared, UInt32.ofInt, UInt32.toNat_ofNat']
  omega

theorem HttpRequest.block_pos (r : HttpRequest sLen) : 0 < r.block.length :=
  List.length_pos_iff.mpr (r.piece.ne_nil rfl)

/-- One wake-up with at least one unread byte. -/
theorem HttpPhase.wake (h : HttpPhase c sLen sock future todo)
    (hroutes : ∀ r ∈ todo.dropLast, Suspends c r) {e : Events} (he : e.epollin = true)
    {count m : Nat} (hcount₀ : 0 < count) (hcount : count < 2 ^ 31)
    (hle : count ≤ sock.unread.length) :
    ∃ past todo' u, todo = past ++ todo' ∧
      (sock.wake e count (arrived sock.unread m) c).Leads c sLen future u
        (past.flatMap (callsOf c)) todo' ∧
      (sLen.toNat < 2 ^ 31 → 0 < m → m < 2 ^ 32 → u.length < sock.unread.length) := by
  have hsome : sock.unread ≠ [] := by
    intro hnil
    rw [hnil, List.length_nil] at hle
    omega
  have hof : (UInt32.ofNat count).toNat = count := by
    rw [UInt32.toNat_ofNat']
    omega
  cases h with
  | header x n hfunc huser hrecv hx hopen hstream =>
    rw [wake_counted hrecv he hfunc]
    have hn₀ : UInt32.ofNat count ≠ 0 := by
      intro h0
      rw [h0] at hof
      exact absurd hof (Nat.ne_of_lt hcount₀)
    obtain ⟨y, u, hreceive, hbytes, hend, hless⟩ := receive_counted
      { sock with recv := counted sLen x (UInt32.ofNat count) } rfl hn₀ (by omega)
      (hof.le.trans hle) hx hopen
    simp only at hbytes hless
    have hmoved : y ++ (u ++ future) = requestStream todo := by
      rw [← hstream, ← List.append_assoc, hbytes, List.append_assoc]
    cases todo with
    | nil =>
      have hnil := congrArg List.length hstream
      rw [List.length_append, List.length_append] at hnil
      change _ = 0 at hnil
      omega
    | cons r todo =>
      rw [requestStream_cons] at hmoved
      rcases hend with hpiece | hstill
      · obtain rfl : y = r.block := hpiece.eq r.piece hmoved
        obtain ⟨past, todo', hsplit, hleads⟩ := complete_header (n := UInt32.ofNat count)
          { sock with recv := counted sLen r.block (UInt32.ofNat count), unread := u }
          rfl hfunc huser hroutes (List.append_cancel_left hmoved)
        rw [httpOwn_counted he hn₀ hreceive r.block_lt, if_pos hpiece.1]
        exact ⟨past, todo', u, hsplit, hleads.parsed, fun hsLen _ _ => hless hsLen⟩
      · have hy : y.length < sLen.toNat := (hstill.length_lt r.piece hmoved).trans r.block_lt
        rw [httpOwn_counted he hn₀ hreceive hy, hstill.done_eq, if_neg Bool.false_ne_true]
        refine ⟨[], r :: todo, u, rfl, (leads_waiting ?_).parsed, fun hsLen _ _ => hless hsLen⟩
        rw [← requestStream_cons] at hmoved
        exact .header y _ hfunc huser rfl hy hstill hmoved
  | @body r todo y n r' hm hbody hfunc huser hrecv hy hstream =>
    have hreq := reqLen_body hm hbody
    have hreq₀ : r'.recv.reqLen ≠ 0 := by
      intro h0
      rw [h0] at hreq
      change 0 = _ at hreq
      omega
    obtain ⟨z, ask, hz, hroom, hmoved, hauto⟩ := autoRecv_withBody (n := UInt32.ofNat count)
      (u := sock.unread) (m := m) hreq hy
    obtain ⟨u, hu⟩ := hz
    have hdrop : sock.unread.drop z.length = u := by rw [← hu, List.drop_left]
    have hless : 0 < m → m < 2 ^ 32 → u.length < sock.unread.length := by
      intro hm₀ hm₁
      have hpos := List.length_pos_iff.mpr (hmoved hm₀ hm₁ hsome)
      rw [← hu, List.length_append]
      omega
    have hsplit : y ++ z ++ (u ++ future) = r.body ++ requestStream todo := by
      rw [← hstream, ← hu]
      simp only [List.append_assoc]
    rw [wake_withBody hrecv he hfunc hreq₀]
    by_cases hfull : y.length + z.length = r.body.length
    · obtain ⟨hbytes, hrest⟩ := List.append_inj hsplit (by rw [List.length_append, hfull])
      rw [hauto, if_pos hfull]
      simp only [hdrop, hbytes, if_true]
      refine ⟨[r], todo, u, rfl, ?_, fun _ => hless⟩
      rw [httpOwn_withBody rfl he, List.flatMap_singleton]
      exact (complete_body { sock with recv := withBody r'.recv r.body 0, unread := u }
        hm hbody rfl hfunc huser hroutes hrest).parsed
    · rw [hauto, if_neg hfull]
      simp only [hdrop]
      refine ⟨[], r :: todo, u, rfl, leads_waiting ?_, fun _ => hless⟩
      have hyz : (y ++ z).length < r.body.length := by
        rw [List.length_append]
        omega
      exact .body (y ++ z) ask r' hm hbody hfunc huser rfl hyz hsplit
  | last hstream =>
    exact absurd (List.append_eq_nil_iff.mp hstream).1 hsome

end Wake

-- ════════════════════════════════════════════════════════════════════════
-- Runs
-- ════════════════════════════════════════════════════════════════════════

/-- The calls are those of the requests that are past, and the rest is to come. -/
def HttpLink.Follows {sLen : UInt32} (c : Surroundings) (reqs : List (HttpRequest sLen))
    (l : HttpLink) : Prop :=
  ∃ past todo, reqs = past ++ todo ∧ l.calls = past.flatMap (callsOf c) ∧
    if l.ended then todo = [] else HttpPhase c sLen l.sock l.future todo

/-- However the bytes of the requests arrive, their calls are made in their order, and once
everything has arrived and has been read all of them have been made. Wherever a run has got
to, it can be continued up to there. -/
def ServesStream {sLen : UInt32} (c : Surroundings) (sd : Nat) (reqs : List (HttpRequest sLen)) :
    Prop :=
  ∀ (as : List HttpAction) (l : HttpLink),
    run (HttpLink.step c) (.start sd sLen (requestStream reqs)) as = some l →
      l.calls <+: reqs.flatMap (callsOf c) ∧
      (l.Complete → l.calls = reqs.flatMap (callsOf c)) ∧
      ∃ bs l', run (HttpLink.step c) l bs = some l' ∧ l'.Complete

section Runs

variable {c : Surroundings} {sLen : UInt32} {reqs todo : List (HttpRequest sLen)} {l l' : HttpLink}

/-- Bytes that arrive do not change what is to be received. -/
theorem HttpPhase.arrive {sock : HttpSocket} {future : List UInt8}
    (h : HttpPhase c sLen sock future todo) (n : Nat) :
    HttpPhase c sLen { sock with unread := sock.unread ++ future.take n } (future.drop n) todo := by
  have hmove : sock.unread ++ future.take n ++ future.drop n = sock.unread ++ future := by
    rw [List.append_assoc, List.take_append_drop]
  cases h with
  | header x n' hfunc huser hrecv hx hopen hstream =>
    exact .header x n' hfunc huser hrecv hx hopen (by rw [hmove]; exact hstream)
  | body y n' m hm hbody hfunc huser hrecv hy hstream =>
    exact .body y n' m hm hbody hfunc huser hrecv hy (by rw [hmove]; exact hstream)
  | last hstream => exact .last (hmove.trans hstream)

theorem dropLast_of_append {α : Type} {past todo : List α} {a : α} (h : a ∈ todo.dropLast) :
    a ∈ (past ++ todo).dropLast := by
  have hne : todo ≠ [] := by
    rintro rfl
    exact absurd h (List.not_mem_nil)
  rw [List.dropLast_append_of_ne_nil hne]
  exact List.mem_append_right past h

/-- One action; a wake-up for bytes that `m` counts leaves fewer of them unread. -/
theorem HttpLink.Follows.step (hroutes : ∀ r ∈ reqs.dropLast, Suspends c r) {a : HttpAction}
    (h : l.Follows c reqs) (hstep : l.step c a = some l') :
    l'.Follows c reqs ∧ (sLen.toNat < 2 ^ 31 → ∀ e n m, a = .wake e n m → 0 < m → m < 2 ^ 32 →
      l'.sock.unread.length < l.sock.unread.length) := by
  obtain ⟨past, todo, hreqs, hcalls, hphase⟩ := h
  cases a with
  | arrive n =>
    obtain rfl := Option.some.inj hstep
    refine ⟨⟨past, todo, hreqs, hcalls, ?_⟩, fun _ e n m hwake => by simp at hwake⟩
    cases hended : l.ended with
    | true =>
      rw [hended] at hphase
      exact hphase
    | false =>
      rw [hended] at hphase
      exact HttpPhase.arrive hphase n
  | wake e n m =>
    rw [HttpLink.step] at hstep
    split at hstep
    · next hen =>
      obtain ⟨he, hn₀, hn, hle, -, hended⟩ := hen
      rw [hended] at hphase
      obtain ⟨more, todo', u, hsplit, hleads, hless⟩ := HttpPhase.wake (m := m) hphase
        (fun r hr => hroutes r (hreqs ▸ dropLast_of_append hr)) he hn₀ hn hle
      obtain rfl := Option.some.inj hstep
      refine ⟨⟨past ++ more, todo', ?_, ?_, ?_⟩, fun hsLen e' n' m' hwake hm₀ hm => ?_⟩
      · rw [hreqs, hsplit, List.append_assoc]
      · simp only [hcalls, hleads.calls, List.flatMap_append]
      · have hnext := hleads.phase
        cases hgoes : (l.sock.wake e n (arrived l.sock.unread m) c).served.goesOn with
        | true =>
          rw [hgoes] at hnext
          simpa [hgoes] using hnext
        | false =>
          rw [hgoes] at hnext
          simpa [hgoes] using hnext
      · obtain ⟨rfl, rfl, rfl⟩ := HttpAction.wake.inj hwake
        simp only [hleads.unread]
        exact hless hsLen hm₀ hm
    · exact absurd hstep (by simp)

theorem HttpLink.Follows.start (c : Surroundings) (sd : Nat) (reqs : List (HttpRequest sLen)) :
    (HttpLink.start sd sLen (requestStream reqs)).Follows c reqs := by
  refine ⟨[], reqs, rfl, rfl, ?_⟩
  cases reqs with
  | nil => exact .last rfl
  | cons r reqs =>
    have hpos : 0 < sLen.toNat := (Nat.zero_le _).trans_lt r.block_lt
    exact .header [] 0 rfl rfl rfl hpos (.nil rfl) rfl

theorem HttpLink.Follows.run (hroutes : ∀ r ∈ reqs.dropLast, Suspends c r)
    {as : List HttpAction} (h : l.Follows c reqs) (hrun : run (HttpLink.step c) l as = some l') :
    l'.Follows c reqs :=
  (Exec.of_run hrun).invariant (fun _ _ _ _ hl hstep => (hl.step hroutes hstep).1) h

/-- Nothing is to come where everything has been read. -/
theorem HttpPhase.nil_of_read {sock : HttpSocket} {future : List UInt8}
    (h : HttpPhase c sLen sock future todo) (hread : sock.unread ++ future = []) : todo = [] := by
  cases h with
  | header x n hfunc huser hrecv hx hopen hstream =>
    cases todo with
    | nil => rfl
    | cons r todo =>
      rw [hread, List.append_nil, requestStream_cons] at hstream
      have hlt := hopen.length_lt (l := []) r.piece (by rw [List.append_nil]; exact hstream)
      have hlen := congrArg List.length hstream
      rw [List.length_append] at hlen
      omega
  | body y n m hm hbody hfunc huser hrecv hy hstream =>
    have hlen := congrArg List.length hstream
    rw [hread, List.append_nil, List.length_append] at hlen
    omega
  | last hstream => rfl

/-- All calls have been made when a run is complete. -/
theorem HttpLink.Follows.calls_eq (h : l.Follows c reqs) (hcomplete : l.Complete) :
    l.calls = reqs.flatMap (callsOf c) := by
  obtain ⟨past, todo, hreqs, hcalls, hphase⟩ := h
  have hnil : todo = [] := by
    cases hended : l.ended with
    | true =>
      rw [hended] at hphase
      exact hphase
    | false =>
      rw [hended] at hphase
      rcases hcomplete with ⟨hfuture, hunread⟩ | h
      · exact HttpPhase.nil_of_read hphase (by rw [hfuture, hunread, List.append_nil])
      · rw [hended] at h
        exact absurd h Bool.false_ne_true
  rw [hcalls, hreqs, hnil, List.append_nil]

/-- Byte for byte a run comes to its end. -/
theorem HttpLink.Follows.completes (hroutes : ∀ r ∈ reqs.dropLast, Suspends c r)
    (hsLen : sLen.toNat < 2 ^ 31) {k : Nat} (h : l.Follows c reqs) (hfuture : l.future = [])
    (hk : l.sock.unread.length ≤ k) :
    ∃ bs l', Execution.run (HttpLink.step c) l bs = some l' ∧ l'.Complete := by
  induction k generalizing l with
  | zero =>
    have hunread : l.sock.unread = [] := List.length_eq_zero_iff.mp (Nat.le_zero.mp hk)
    exact ⟨[], l, rfl, .inl ⟨hfuture, hunread⟩⟩
  | succ k ih =>
    cases hended : l.ended with
    | true => exact ⟨[], l, rfl, .inr hended⟩
    | false =>
      by_cases hunread : l.sock.unread = []
      · exact ⟨[], l, rfl, .inl ⟨hfuture, hunread⟩⟩
      · have hpos := List.length_pos_iff.mpr hunread
        obtain ⟨l₁, hl₁, hfuture₁⟩ : ∃ l₁, l.step c (.wake .base 1 1) = some l₁ ∧
            l₁.future = l.future :=
          ⟨_, if_pos ⟨rfl, by decide, by decide, hpos, hpos, hended⟩, rfl⟩
        obtain ⟨hnext, hless⟩ := h.step hroutes hl₁
        have hlt := hless hsLen _ _ _ rfl (by decide) (by decide)
        obtain ⟨bs, l', hbs, hl'⟩ := ih hnext (hfuture₁.trans hfuture) (by omega)
        refine ⟨.wake .base 1 1 :: bs, l', ?_, hl'⟩
        rw [Execution.run, hl₁]
        exact hbs

/-- The connection is as it was at its beginning, and bytes are still to be read. -/
structure HttpLink.Stuck (sLen : UInt32) (l : HttpLink) : Prop where
  recv : ∃ n, l.sock.recv = counted sLen [] n
  func : l.sock.func = none
  ended : l.ended = false
  bytes : l.sock.unread ++ l.future ≠ []

/-- A buffer of 2 GiB or more is never read into: the free space is negative, as an `int`. -/
theorem HttpLink.Stuck.step (hsLen : 2 ^ 31 ≤ sLen.toNat) {a : HttpAction} (h : l.Stuck sLen)
    (hstep : l.step c a = some l') : l'.Stuck sLen := by
  obtain ⟨n₀, hrecv⟩ := h.recv
  cases a with
  | arrive n =>
    obtain rfl := Option.some.inj hstep
    refine ⟨h.recv, h.func, h.ended, ?_⟩
    simp only [List.append_assoc, List.take_append_drop]
    exact h.bytes
  | wake e n m =>
    rw [HttpLink.step] at hstep
    split at hstep
    · next hen =>
      obtain ⟨he, hn₀, hn, -, -, -⟩ := hen
      obtain rfl := Option.some.inj hstep
      have hcount : UInt32.ofNat n ≠ 0 := by
        intro h0
        have hof := congrArg UInt32.toNat h0
        rw [UInt32.toNat_ofNat'] at hof
        change _ = 0 at hof
        omega
      have hreceive := receive_eq { l.sock with recv := counted sLen [] (UInt32.ofNat n) }
        (x := []) (y := []) (u := l.sock.unread) rfl hcount (by rw [remain_nil hsLen]; rfl)
      have hwake : l.sock.wake e n (arrived l.sock.unread m) c =
          { sock := { l.sock with recv := counted sLen [] (UInt32.ofNat n) }
            served := .answer .suspend
            parsed := true } := by
        rw [wake_counted hrecv he h.func, httpOwn_counted he hcount hreceive
          (by rw [List.length_nil]; omega)]
        rfl
      refine ⟨⟨UInt32.ofNat n, ?_⟩, ?_, ?_, ?_⟩
      · simp only [hwake]
      · simp only [hwake]
        exact h.func
      · simp only [hwake]
        rfl
      · simp only [hwake]
        exact h.bytes
    · exact absurd hstep (by simp)

theorem HttpLink.Stuck.not_complete (h : l.Stuck sLen) : ¬ l.Complete := by
  rintro (⟨hfuture, hunread⟩ | hended)
  · exact h.bytes (by rw [hunread, hfuture, List.append_nil])
  · rw [h.ended] at hended
    exact absurd hended Bool.false_ne_true

theorem HttpLink.Stuck.start (sd : Nat) (hne : reqs ≠ []) :
    (HttpLink.start sd sLen (requestStream reqs)).Stuck sLen := by
  refine ⟨⟨0, rfl⟩, rfl, rfl, ?_⟩
  cases reqs with
  | nil => exact absurd rfl hne
  | cons r reqs =>
    change requestStream (r :: reqs) ≠ []
    rw [requestStream_cons]
    exact List.append_ne_nil_of_left_ne_nil (List.length_pos_iff.mp r.block_pos) _

theorem not_servesStream (sd : Nat) (hne : reqs ≠ []) (hsLen : 2 ^ 31 ≤ sLen.toNat) :
    ¬ ServesStream c sd reqs := by
  intro h
  obtain ⟨-, -, bs, l', hbs, hcomplete⟩ := h [] _ rfl
  have hstuck : l'.Stuck sLen :=
    (Exec.of_run hbs).invariant (fun _ _ _ _ hl hstep => hl.step hsLen hstep) (.start sd hne)
  exact hstuck.not_complete hcomplete

/-- Without requests nothing is to be read. -/
theorem HttpLink.Follows.complete_of_nil (h : l.Follows c ([] : List (HttpRequest sLen))) :
    l.Complete := by
  obtain ⟨past, todo, hreqs, -, hphase⟩ := h
  obtain rfl : todo = [] := (List.append_eq_nil_iff.mp hreqs.symm).2
  cases hended : l.ended with
  | true => exact .inr hended
  | false =>
    rw [hended] at hphase
    have hread : l.sock.unread ++ l.future = [] := by
      cases hphase with
      | header x n hfunc huser hrecv hx hopen hstream =>
        exact (List.append_eq_nil_iff.mp hstream).2
      | last hstream => exact hstream
    obtain ⟨hunread, hfuture⟩ := List.append_eq_nil_iff.mp hread
    exact .inl ⟨hfuture, hunread⟩

theorem servesStream (sd : Nat) (hroutes : ∀ r ∈ reqs.dropLast, Suspends c r)
    (hsLen : reqs = [] ∨ sLen.toNat < 2 ^ 31) : ServesStream c sd reqs := by
  intro as l hrun
  have hl : l.Follows c reqs := (HttpLink.Follows.start c sd reqs).run hroutes hrun
  refine ⟨?_, hl.calls_eq, ?_⟩
  · obtain ⟨past, todo, hreqs, hcalls, -⟩ := hl
    rw [hcalls, hreqs, List.flatMap_append]
    exact List.prefix_append ..
  · rcases hsLen with rfl | hsLen
    · exact ⟨[], l, rfl, hl.complete_of_nil⟩
    · obtain ⟨l₁, hl₁, hfuture⟩ : ∃ l₁, l.step c (.arrive l.future.length) = some l₁ ∧
          l₁.future = [] := ⟨_, rfl, List.drop_length⟩
      obtain ⟨bs, l', hbs, hl'⟩ :=
        (hl.step hroutes hl₁).1.completes hroutes hsLen hfuture (Nat.le_refl _)
      refine ⟨.arrive l.future.length :: bs, l', ?_, hl'⟩
      rw [Execution.run, hl₁]
      exact hbs

/-- A connection is a function of the bytes that it receives, if its receive buffer is below
2 GiB: the requests lead to the same calls however they arrive, and each of them to the
calls that it leads to alone. -/
theorem http_stream_iff (c : Surroundings) (sd : Nat) (reqs : List (HttpRequest sLen))
    (hroutes : ∀ r ∈ reqs.dropLast, Suspends c r) :
    (ServesStream c sd reqs ∧ ∀ r ∈ reqs, ServesStream c sd [r]) ↔
      (reqs = [] ∨ sLen.toNat < 2 ^ 31) := by
  constructor
  · rintro ⟨h, -⟩
    by_contra hnot
    obtain ⟨hne, hsLen⟩ := not_or.mp hnot
    exact not_servesStream sd hne (Nat.le_of_not_lt hsLen) h
  · intro hsLen
    refine ⟨servesStream sd hroutes hsLen, fun r hr => servesStream sd ?_ (hsLen.imp_left ?_)⟩
    · exact List.forall_mem_nil _
    · rintro rfl
      exact absurd hr List.not_mem_nil

end Runs

/-- `GET /a HTTP/1.1` with a body of two bytes. -/
def twoBlock : List UInt8 := [71, 69, 84, 32, 47, 97, 32, 72, 84, 84, 80, 47, 49, 46, 49, 13, 10] ++
  textContentLength ++ [58, 32, 50, 13, 10, 13, 10]

theorem twoBlock_piece : Piece messageComplete twoBlock := piece_of_take (by decide) (by decide)

theorem twoBlock_declared : declaredLength twoBlock = ([104, 105] : List UInt8).length := by decide

def twoRequest (sLen : UInt32) (h : 40 < sLen.toNat) : HttpRequest sLen where
  block := twoBlock
  body := [104, 105]
  piece := twoBlock_piece
  declared := twoBlock_declared
  fits := h

/-- `/a` is routed, and the route keeps the connection. -/
def keepsAlive : Surroundings where
  routes := [[47, 97]]
  wsRoutes := []
  handlers := []
  route _ := .suspend
  websocketFunc _ _ := .suspend
  junk _ := 0
  view := ⟨false, false, {}, 0, 0⟩

theorem twoRequest_suspends : Suspends keepsAlive (twoRequest 64 (by decide)) := ⟨_, rfl, rfl⟩

theorem http_stream_two : let r := twoRequest 64 (by decide)
    ServesStream keepsAlive 5 [r, r] ∧ ∀ r' ∈ [r, r], ServesStream keepsAlive 5 [r'] :=
  (http_stream_iff keepsAlive 5 _ (List.forall_mem_singleton.mpr twoRequest_suspends)).mpr
    (.inr (by decide))

/-- A buffer of 2 GiB: the request is not read. -/
theorem http_stream_stuck :
    ¬ ServesStream keepsAlive 5 [twoRequest 0x80000000 (by decide)] :=
  not_servesStream 5 (List.cons_ne_nil _ _) (by decide)

end Tst
