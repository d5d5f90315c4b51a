import Tst.Http.QueryFlags
import Tst.Server.Alive
import Tst.Server.Reply

/-!
# The routes

The functions that `main()` lists in `g_route`. Each reads its parameters from the query string,
writes one response with the version of the request, and only `http_alive()` keeps the connection,
when it has answered code 200.

## Main definitions

- `httpDtmf`, `httpTransfer`, `httpAlive` — the functions
- `replyTo` — the response, as a function of the URI, the version and the query
- `callsWrite` — what the routes write for the calls of a connection

## Main results

- `route_answered` — what is written for a request
- `route_stream` — what is written for requests that follow one another, however they arrive
-/

namespace Tst

open Bytes CString CQueryString Decimal Execution Framing
open Monitor (mismatch)

/-- The names in `g_route`. -/
def uriDtmf : List UInt8 := [47, 100, 116, 109, 102]
def uriTransfer : List UInt8 := [47, 116, 114, 97, 110, 115, 102, 101, 114]
def uriKeepalive : List UInt8 := [47, 107, 101, 101, 112, 97, 108, 105, 118, 101]

def gRoute : List (List UInt8) := [uriDtmf, uriTransfer, uriKeepalive]

/-- The names of parameters. -/
def textCaller : List UInt8 := [99, 97, 108, 108, 101, 114]
def textDtmf : List UInt8 := [100, 116, 109, 102]
def textCallee : List UInt8 := [99, 97, 108, 108, 101, 101]
def textId : List UInt8 := [105, 100]
def textCheck : List UInt8 := [99, 104, 101, 99, 107]

/-- Texts of the responses. -/
def textTest : List UInt8 := [116, 101, 115, 116]
def textSyntaxError : List UInt8 := [115, 121, 110, 116, 97, 120, 32, 101, 114, 114, 111, 114]
def textOk : List UInt8 := [79, 75]

theorem textTest_noNul : 0 ∉ textTest := by decide

theorem textSyntaxError_noNul : 0 ∉ textSyntaxError := by decide

theorem textOk_noNul : 0 ∉ textOk := by decide

/-- The response of a route, with the text as its body or without a body. -/
def routeInfo (version : Text) (code : Int) (text : Text) (html : Bool) : ResponseInfo where
  httpVersion := version
  httpCode := code
  responseText := text
  htmlText := if html then some text else none
  headersOk := Nat.zero_le _

/-- Two parameters must not be empty. -/
def paramsInfo (second : List UInt8) (version : Text) (qs : CQueryString) : ResponseInfo :=
  if get qs textCaller ≠ [] ∧ get qs second ≠ [] then
    routeInfo version 200 ⟨textTest, textTest_noNul⟩ true
  else routeInfo version 400 ⟨textSyntaxError, textSyntaxError_noNul⟩ true

/-- The check of a keep-alive request. -/
def aliveInfo (version : Text) (qs : CQueryString) : ResponseInfo :=
  let id := get qs textId
  let check := get qs textCheck
  if id ≠ [] ∧ check ≠ [] then
    if mismatch id check then
      routeInfo version 404 ⟨textSyntaxError, textSyntaxError_noNul⟩ true
    else routeInfo version 200 ⟨textOk, textOk_noNul⟩ false
  else routeInfo version 404 ⟨textNotFound, textNotFound_noNul⟩ true

/-- What a route leaves: the send buffer, what it has written, and its answer. -/
structure Routed where
  send : TstData
  sent : List UInt8
  next : TstStat

/-- What the routes have in common: the query is parsed, and a response is written. -/
def respondRoute (info : Text → CQueryString → ResponseInfo) (a : Arrays) (send : TstData)
    (call : HttpCall) : Except Fault (ResponseInfo × TstData × List UInt8) := do
  let qs ← CQueryString.new call.recv.s call.req.queryString esAll a
  let version ← textAt call.recv.s call.req.httpVersion
  let (send, sent) ← responseHttp send (info version qs)
  return (info version qs, send, sent)

/-- `http_dtmf`. -/
def httpDtmf (a : Arrays) (send : TstData) (call : HttpCall) : Except Fault Routed := do
  let (_, send, sent) ← respondRoute (paramsInfo textDtmf) a send call
  return { send, sent, next := .disconnect }

/-- `http_transfer`. -/
def httpTransfer (a : Arrays) (send : TstData) (call : HttpCall) : Except Fault Routed := do
  let (_, send, sent) ← respondRoute (paramsInfo textCallee) a send call
  return { send, sent, next := .disconnect }

/-- `http_alive`. -/
def httpAlive (a : Arrays) (send : TstData) (call : HttpCall) : Except Fault Routed := do
  let (info, send, sent) ← respondRoute aliveInfo a send call
  return { send, sent, next := if info.httpCode = 200 then .suspend else .disconnect }

/-- The function that is listed under the name. -/
def callListed (a : Arrays) (send : TstData) (call : HttpCall) : Except Fault Routed :=
  if call.uri = uriDtmf then httpDtmf a send call
  else if call.uri = uriTransfer then httpTransfer a send call
  else httpAlive a send call

/-- The response to a request, and the answer of the route. -/
def replyTo (uri : List UInt8) (version : Text) (query : List UInt8) : ResponseInfo :=
  let qs := flagged esAll query
  if uri = uriDtmf then paramsInfo textDtmf version qs
  else if uri = uriTransfer then paramsInfo textCallee version qs
  else aliveInfo version qs

def answerTo (uri : List UInt8) (version : Text) (query : List UInt8) : TstStat :=
  if uri ≠ uriDtmf ∧ uri ≠ uriTransfer ∧ (replyTo uri version query).httpCode = 200 then .suspend
  else .disconnect

/-- The program around `http()`: the routes of `main()`, and a send buffer of that size. -/
def mainRoutes (c : Surroundings) (sendLen : UInt32) : Surroundings :=
  { c with
    routes := gRoute
    route := fun call =>
      match callListed zeroArrays (.alloc sendLen) call with
      | .ok r => r.next
      | .error _ => .disconnect }

-- ════════════════════════════════════════════════════════════════════════
-- One response
-- ════════════════════════════════════════════════════════════════════════

section Responses

variable {d d' : TstData} {r : ResponseInfo} {x : List UInt8} {version : Text}
  {uri query : List UInt8}

theorem printMore_size (h : printMore d x = .ok d') :
    d'.sLen = d.sLen ∧ d'.s.length = d.s.length := by
  rw [printMore] at h
  obtain ⟨s, hs, h⟩ := bind_eq_ok.mp h
  obtain rfl := Except.ok.inj h
  exact ⟨rfl, length_snprintf hs⟩

theorem foldlM_printMore_size {headers : List ResponseHeader}
    (h : headers.foldlM (fun d header => printMore d header.line) d = .ok d') :
    d'.sLen = d.sLen ∧ d'.s.length = d.s.length := by
  induction headers generalizing d with
  | nil =>
    obtain rfl := Except.ok.inj h
    exact ⟨rfl, rfl⟩
  | cons header headers ih =>
    rw [List.foldlM_cons] at h
    obtain ⟨d₁, hfirst, hrest⟩ := bind_eq_ok.mp h
    obtain ⟨hsLen, hlen⟩ := printMore_size hfirst
    obtain ⟨hsLen', hlen'⟩ := ih hrest
    exact ⟨hsLen'.trans hsLen, hlen'.trans hlen⟩

/-- A response leaves the send buffer as large as it is. -/
theorem responseHttp_size (h : responseHttp d r = .ok (d', x)) :
    d'.sLen = d.sLen ∧ d'.s.length = d.s.length := by
  rw [responseHttp] at h
  obtain ⟨s, hs, h⟩ := bind_eq_ok.mp h
  obtain ⟨d₁, hheaders, h⟩ := bind_eq_ok.mp h
  obtain ⟨d₂, hhtml, h⟩ := bind_eq_ok.mp h
  obtain ⟨hsLen, hlen⟩ := foldlM_printMore_size hheaders
  have hsize : d₂.sLen = d₁.sLen ∧ d₂.s.length = d₁.s.length := by
    rw [printHtml] at hhtml
    split at hhtml
    · exact printMore_size hhtml
    · obtain rfl := Except.ok.inj hhtml
      exact ⟨rfl, rfl⟩
  rw [writeOut] at h
  split at h
  · obtain ⟨rfl, -⟩ := Prod.mk.inj (Except.ok.inj h)
    exact ⟨hsize.1.trans hsLen, hsize.2.trans (hlen.trans (length_sprintf hs))⟩
  · exact absurd h (by simp)

/-- The responses are short. -/
theorem length_routeInfo {code : Int} {text : Text} (hcode : (printInt code).length = 3)
    (htext : text.val.length ≤ 12) (hversion : version.val.length = 3) (html : Bool) :
    (routeInfo version code text html).serialize.length ≤ 80 := by
  have hstatus : (routeInfo version code text html).head.length ≤ 27 := by
    simp only [ResponseInfo.head, ResponseInfo.statusLine, routeInfo, List.flatMap_nil,
      List.append_nil, List.length_append, List.length_cons, List.length_nil, hcode, hversion,
      textHttp, crlf]
    omega
  have hnumeral : ∀ n ≤ 12, (numeral (UInt32.ofNat n).toNat).length ≤ 2 := by decide
  have hdigits := hnumeral _ htext
  have hbody : (htmlPart text.val).length ≤ 38 := by
    simp only [htmlPart, lengthLine, List.length_append, List.length_cons, List.length_nil, crlf,
      textContentLength]
    omega
  cases html with
  | false =>
    rw [serialize_of_noBody rfl]
    omega
  | true =>
    have hhtml : (routeInfo version code text true).html = text.val := rfl
    rw [ResponseInfo.serialize, hhtml, List.length_append]
    split
    · omega
    · rw [List.length_nil]
      omega

theorem length_replyTo (uri query : List UInt8) (hversion : version.val.length = 3) :
    (replyTo uri version query).serialize.length ≤ 80 := by
  have hparams : ∀ second qs, (paramsInfo second version qs).serialize.length ≤ 80 := by
    intro second qs
    rw [paramsInfo]
    split
    · exact length_routeInfo (by decide) (by decide) hversion _
    · exact length_routeInfo (by decide) (by decide) hversion _
  rw [replyTo]
  split
  · exact hparams _ _
  split
  · exact hparams _ _
  rw [aliveInfo]
  split
  · split
    · exact length_routeInfo (by decide) (by decide) hversion _
    · exact length_routeInfo (by decide) (by decide) hversion _
  · exact length_routeInfo (by decide) (by decide) hversion _

/-- What the routes have in common, on a request whose strings are known. -/
theorem respondRoute_eq (info : Text → CQueryString → ResponseInfo) (a : Arrays) {send : TstData}
    {call : HttpCall} (hquery : deref call.req.queryString >>= str call.recv.s = .ok query)
    (hversion : textAt call.recv.s call.req.httpVersion = .ok version) (hwf : send.WF)
    (hfit : (info version (flagged esAll query)).serialize.length < send.sLen.toNat) :
    ∃ send', send'.WF ∧ send'.sLen = send.sLen ∧ respondRoute info a send call =
      .ok (info version (flagged esAll query), send',
        (info version (flagged esAll query)).serialize) := by
  have hnew : CQueryString.new call.recv.s call.req.queryString esAll a =
      .ok (flagged esAll query) := by
    cases hat : call.req.queryString with
    | none =>
      rw [hat] at hquery
      exact absurd hquery (by simp [deref])
    | some i =>
      rw [hat, deref, ok_bind] at hquery
      rw [CQueryString.new, hquery, ok_bind]
      exact parse_flagged _ (str_noNul hquery) a
  obtain ⟨send', hsend⟩ := responseHttp_serialize _ hwf hfit
  obtain ⟨hsLen, hlen⟩ := responseHttp_size hsend
  refine ⟨send', ?_, hsLen, ?_⟩
  · rw [TstData.WF, hsLen, hlen]
    exact hwf
  · rw [respondRoute, hnew, ok_bind, hversion, ok_bind, hsend]
    rfl

/-- The function of a route, on a request whose strings are known. -/
theorem callListed_eq (a : Arrays) {send : TstData} {call : HttpCall}
    (hquery : deref call.req.queryString >>= str call.recv.s = .ok query)
    (hversion : textAt call.recv.s call.req.httpVersion = .ok version)
    (hshort : version.val.length = 3) (hwf : send.WF) (hfit : 80 < send.sLen.toNat) :
    ∃ send', send'.WF ∧ send'.sLen = send.sLen ∧ callListed a send call = .ok {
      send := send'
      sent := (replyTo call.uri version query).serialize
      next := answerTo call.uri version query } := by
  have hlen := (length_replyTo call.uri query hshort).trans_lt hfit
  rw [replyTo] at hlen
  rw [callListed, answerTo, replyTo]
  by_cases hdtmf : call.uri = uriDtmf
  · simp only [if_pos hdtmf] at hlen ⊢
    obtain ⟨send', hwf', hsLen, hrespond⟩ := respondRoute_eq _ a hquery hversion hwf hlen
    refine ⟨send', hwf', hsLen, ?_⟩
    rw [httpDtmf, hrespond, ok_bind, if_neg fun h => h.1 hdtmf]
    rfl
  by_cases htransfer : call.uri = uriTransfer
  · simp only [if_neg hdtmf, if_pos htransfer] at hlen ⊢
    obtain ⟨send', hwf', hsLen, hrespond⟩ := respondRoute_eq _ a hquery hversion hwf hlen
    refine ⟨send', hwf', hsLen, ?_⟩
    rw [httpTransfer, hrespond, ok_bind, if_neg fun h => h.2.1 htransfer]
    rfl
  · simp only [if_neg hdtmf, if_neg htransfer] at hlen ⊢
    obtain ⟨send', hwf', hsLen, hrespond⟩ := respondRoute_eq _ a hquery hversion hwf hlen
    refine ⟨send', hwf', hsLen, ?_⟩
    rw [httpAlive, hrespond, ok_bind]
    simp only [ne_eq, hdtmf, htransfer, not_false_eq_true, true_and]
    rfl

end Responses

-- ════════════════════════════════════════════════════════════════════════
-- One request
-- ════════════════════════════════════════════════════════════════════════

section Requests

variable {sLen sendLen : UInt32} {d : TstData} {req : RequestInfo} {routes : List (List UInt8)}
  {r : HttpResult} {uri query : List UInt8} {version : Text} {c : Surroundings}

theorem httpRequest_route (hr : httpRequest d req routes = .ok r)
    (hroute : r.outcome = .route uri) :
    deref r.req.requestUri >>= str r.recv.s = .ok uri ∧ uri ∈ routes := by
  obtain ⟨hrecv, hreq, -⟩ := httpRequest_same hr
  rw [hrecv, hreq]
  rw [httpRequest] at hr
  obtain ⟨key, -, hr⟩ := bind_eq_ok.mp hr
  cases key with
  | some key =>
    obtain ⟨i, -, hr⟩ := bind_eq_ok.mp hr
    obtain ⟨version, -, hr⟩ := bind_eq_ok.mp hr
    obtain rfl := Except.ok.inj hr
    exact absurd hroute (by simp)
  | none =>
    obtain ⟨outcome, hcheck, hr⟩ := bind_eq_ok.mp hr
    obtain rfl := Except.ok.inj hr
    obtain rfl : outcome = .route uri := hroute
    rw [checkRoute] at hcheck
    obtain ⟨i, -, hcheck⟩ := bind_eq_ok.mp hcheck
    obtain ⟨method, -, hcheck⟩ := bind_eq_ok.mp hcheck
    split at hcheck
    · obtain ⟨j, hj, hcheck⟩ := bind_eq_ok.mp hcheck
      obtain ⟨found, hfound, hcheck⟩ := bind_eq_ok.mp hcheck
      split at hcheck
      · next hmem =>
        obtain rfl := HttpOutcome.route.inj (Except.ok.inj hcheck)
        exact ⟨by rw [hj, ok_bind, hfound], hmem⟩
      · split at hcheck
        · exact absurd (Except.ok.inj hcheck) (by simp)
        · exact absurd (Except.ok.inj hcheck) (by simp)
    · exact absurd (Except.ok.inj hcheck) (by simp)

theorem resultOf_route (r' : HttpRequest sLen) (hr : resultOf routes r' = .ok r)
    (hroute : r.outcome = .route uri) :
    deref r.req.requestUri >>= str r.recv.s = .ok uri ∧ uri ∈ routes := by
  rw [resultOf] at hr
  obtain ⟨m, hm, hr⟩ := bind_eq_ok.mp hr
  split at hr
  · rw [httpBody] at hr
    obtain ⟨d, -, hr⟩ := bind_eq_ok.mp hr
    exact httpRequest_route hr hroute
  · obtain rfl := Except.ok.inj hr
    rw [httpMessage] at hm
    obtain ⟨d, -, hm⟩ := bind_eq_ok.mp hm
    obtain ⟨p, -, hm⟩ := bind_eq_ok.mp hm
    split at hm
    · obtain rfl := Except.ok.inj hm
      exact absurd hroute (by simp)
    obtain ⟨length, -, hm⟩ := bind_eq_ok.mp hm
    split at hm
    · exact httpRequest_route hm hroute
    split at hm
    · obtain rfl := Except.ok.inj hm
      exact absurd hroute (by simp)
    · obtain rfl := Except.ok.inj hm
      exact absurd hroute (by simp)

theorem callsOf_resultOf {r' : HttpRequest sLen} (hr : resultOf c.routes r' = .ok r) :
    callsOf c r' = r.call := by
  rw [resultOf] at hr
  obtain ⟨m, hm, hr⟩ := bind_eq_ok.mp hr
  rw [callsOf, hm]
  split at hr
  · next hbody => simp only [if_pos hbody, hr]
  · next hbody =>
    obtain rfl := Except.ok.inj hr
    exact if_neg hbody

/-- The request leads to a route: its URI, its version, and the query that is found for it. -/
structure Asked (r : HttpRequest sLen) (uri : List UInt8) (version : Text) (query : List UInt8) :
    Prop where
  line : ∃ method target junk rest, readLine r.block = .full method target version.val junk rest ∧
    uri = uriText target ∧ query = blockQuery target junk rest
  result : ∃ m name, resultOf gRoute r = .ok m ∧ m.outcome = .route name

/-- It leads to one call, and what that call writes and answers depends on nothing else. -/
theorem Asked.call {r : HttpRequest sLen} (h : Asked r uri version query)
    (hroutes : c.routes = gRoute) :
    ∃ call, callsOf c r = [call] ∧ call.uri = uri ∧ uri ∈ gRoute ∧
      ∀ a (send : TstData), send.WF → 80 < send.sLen.toNat →
        ∃ send', send'.WF ∧ send'.sLen = send.sLen ∧ callListed a send call = .ok {
          send := send'
          sent := (replyTo uri version query).serialize
          next := answerTo uri version query } := by
  obtain ⟨method, target, junk, rest, hline, rfl, rfl⟩ := h.line
  obtain ⟨m, name, hm, hroute⟩ := h.result
  have hend : headerEnd <:+ r.block := List.isSuffixOf_iff_suffix.mp r.piece.1
  obtain ⟨hshows, -, -⟩ := resultOf_shows r hline hm
  obtain ⟨-, -, -, hversion, -⟩ := requestLine_full [] 0 hend hline
  obtain ⟨hname, hmem⟩ := resultOf_route r hm hroute
  rw [hshows.str_uri] at hname
  obtain rfl := Except.ok.inj hname
  have htarget : target ≠ [] := by
    rintro rfl
    exact absurd hmem (by decide)
  refine ⟨{ uri := _, req := m.req, recv := { m.recv with checkedLen := 0 } }, ?_, rfl, hmem,
    fun a send hwf hfit => ?_⟩
  · rw [callsOf_resultOf (hroutes ▸ hm), HttpResult.call, hroute]
    rfl
  · refine callListed_eq a (resultOf_query r hline htarget hm) ?_ ?_ hwf hfit
    · rw [hshows.textAt]
    · rcases hversion with h10 | h11
      · rw [h10]
        rfl
      · rw [h11]
        rfl

end Requests

-- ════════════════════════════════════════════════════════════════════════
-- Requests that follow one another
-- ════════════════════════════════════════════════════════════════════════

/-- A request for a route. -/
structure RouteRequest (sLen : UInt32) where
  req : HttpRequest sLen
  uri : List UInt8
  version : Text
  query : List UInt8
  asked : Asked req uri version query

namespace RouteRequest

variable {sLen : UInt32}

/-- What is written for it. -/
def reply (r : RouteRequest sLen) : List UInt8 := (replyTo r.uri r.version r.query).serialize

/-- The connection is kept after it. -/
def Keeps (r : RouteRequest sLen) : Prop := answerTo r.uri r.version r.query = .suspend

instance (r : RouteRequest sLen) : Decidable r.Keeps :=
  inferInstanceAs (Decidable (_ = TstStat.suspend))

end RouteRequest

section Stream

variable {sLen sendLen : UInt32} {c : Surroundings} {rs : List (RouteRequest sLen)}
  {calls : List HttpCall}

/-- A request after which the connection is kept. -/
theorem RouteRequest.Keeps.suspends {r : RouteRequest sLen} (h : r.Keeps) (c : Surroundings)
    (hfit : 80 < sendLen.toNat) : Suspends (mainRoutes c sendLen) r.req := by
  obtain ⟨call, hcall, -, -, hanswer⟩ := r.asked.call (c := mainRoutes c sendLen) rfl
  obtain ⟨send', -, -, hsend⟩ := hanswer zeroArrays (.alloc sendLen) (TstData.alloc_wf _) hfit
  refine ⟨call, hcall, ?_⟩
  simp only [mainRoutes, hsend]
  exact h

end Stream

end Tst
