import Tst.Http.Response
import Tst.Server.KeepAlive

/-!
# The answers of `http()`

What `http()` answers itself: that a version is not supported, that a body is too large, that
there is no icon, and that a request is not implemented. The text of the last answer is first
printed into the receive buffer, over the request whose version the status line is to show.

## Main definitions

- `httpRespond` — the answer
- `replyInfo` — what it says

## Main results

- `resultOf_shows` — where the version of a request stands when it has been parsed
- `Shows.respond` — the answer, and the version that its status line shows
-/

namespace Tst

open Bytes CString Framing

/-- Texts of the answers. -/
def textTooLarge : List UInt8 :=
  [80, 97, 121, 108, 111, 97, 100, 32, 84, 111, 111, 32, 76, 97, 114, 103, 101]
def textVersionNotSupported : List UInt8 :=
  [72, 84, 84, 80, 32, 86, 101, 114, 115, 105, 111, 110, 32, 78, 111, 116, 32, 83, 117, 112, 112,
    111, 114, 116, 101, 100]
def textNotFound : List UInt8 := [78, 111, 116, 32, 102, 111, 117, 110, 100]
def textNotImplemented : List UInt8 :=
  [78, 111, 116, 32, 73, 109, 112, 108, 101, 109, 101, 110, 116, 101, 100]

/-- The text for a request that no route takes, in UTF-8. -/
def htmlUnrouted : List UInt8 :=
  [60, 72, 84, 77, 76, 62, 60, 72, 69, 65, 68, 62, 60, 47, 72, 69, 65, 68, 62, 60, 66, 79, 68, 89,
    62, 236, 158, 152, 32, 236, 136, 152, 236, 139, 160, 237, 150, 136, 236, 157, 141, 235, 139,
    136, 235, 139, 164, 46, 60, 98, 114, 62, 234, 183, 184, 235, 159, 172, 235, 130, 152, 32, 236,
    149, 132, 236, 167, 129, 32, 236, 157, 180, 236, 151, 144, 32, 235, 140, 128, 237, 149, 156, 32,
    236, 178, 152, 235, 166, 172, 235, 165, 188, 32, 234, 181, 172, 237, 152, 132, 237, 149, 152,
    236, 167, 128, 32, 236, 149, 138, 236, 149, 152, 236, 157, 140, 46, 46, 46, 60, 47, 66, 79, 68,
    89, 62, 60, 47, 72, 84, 77, 76, 62]

/-- The text for another method. -/
def htmlMethod : List UInt8 :=
  [60, 72, 84, 77, 76, 62, 60, 72, 69, 65, 68, 62, 60, 47, 72, 69, 65, 68, 62, 60, 66, 79, 68, 89,
    62, 236, 158, 152, 32, 236, 136, 152, 236, 139, 160, 237, 150, 136, 236, 157, 141, 235, 139,
    136, 235, 139, 164, 46, 60, 98, 114, 62, 234, 183, 184, 235, 159, 172, 235, 130, 152, 32, 236,
    149, 132, 236, 167, 129, 32, 236, 167, 128, 236, 155, 144, 237, 149, 152, 236, 167, 128, 236,
    149, 138, 235, 138, 148, 32, 235, 169, 148, 236, 134, 140, 235, 147, 156, 236, 158, 133, 235,
    139, 136, 235, 139, 164, 46, 60, 47, 66, 79, 68, 89, 62, 60, 47, 72, 84, 77, 76, 62]

theorem textTooLarge_noNul : 0 ∉ textTooLarge := by decide

theorem textVersionNotSupported_noNul : 0 ∉ textVersionNotSupported := by decide

theorem textNotFound_noNul : 0 ∉ textNotFound := by decide

theorem textNotImplemented_noNul : 0 ∉ textNotImplemented := by decide

theorem text10_noNul : 0 ∉ text10 := by decide

/-- The text that is printed for a request with that method. -/
def htmlFor (method : List UInt8) : List UInt8 :=
  if method = textGet ∨ method = textPost then htmlUnrouted else htmlMethod

/-- The answer to a version that is not supported. -/
def versionNotSupported : ResponseInfo where
  httpVersion := ⟨text10, text10_noNul⟩
  httpCode := 505
  responseText := ⟨textVersionNotSupported, textVersionNotSupported_noNul⟩
  headersOk := Nat.zero_le _

/-- The answer to a body that is too large. -/
def tooLargeInfo (version : Text) : ResponseInfo where
  httpVersion := version
  httpCode := 413
  responseText := ⟨textTooLarge, textTooLarge_noNul⟩
  htmlText := some ⟨textTooLarge, textTooLarge_noNul⟩
  headersOk := Nat.zero_le _

/-- The answer to a header block that does not end in the buffer. -/
def headerTooLarge : ResponseInfo := tooLargeInfo ⟨text10, text10_noNul⟩

/-- The answer to a request for the icon. -/
def notFoundInfo (version : Text) : ResponseInfo where
  httpVersion := version
  httpCode := 404
  responseText := ⟨textNotFound, textNotFound_noNul⟩
  htmlText := some ⟨textNotFound, textNotFound_noNul⟩
  headersOk := Nat.zero_le _

/-- The answer to any other request. -/
def notImplementedInfo (version html : Text) : ResponseInfo where
  httpVersion := version
  httpCode := 501
  responseText := ⟨textNotImplemented, textNotImplemented_noNul⟩
  htmlText := some html
  headersOk := Nat.zero_le _

/-- The string at a pointer, as `%s` prints it. -/
def textAt (s : List UInt8) (p : Option Nat) : Except Fault Text := do
  let x ← str s (← deref p)
  return ⟨cstr x, not_mem_cstr x⟩

/-- `rdata.com_len = sprintf(rdata.s, …)`. -/
def printOver (recv : TstData) (html : List UInt8) : Except Fault TstData := do
  return { recv with s := ← sprintf recv.s 0 html, comLen := UInt32.ofNat html.length }

/-- The answer of `http()` with that code: the two buffers, and the bytes handed to `write()`. -/
def httpRespond (send recv : TstData) (req : RequestInfo) (code : Nat) :
    Except Fault (TstData × TstData × List UInt8) := do
  if code = 505 then return (recv, ← responseHttp send versionNotSupported)
  else if code = 413 then
    return (recv, ← responseHttp send (tooLargeInfo (← textAt recv.s req.httpVersion)))
  else if code = 404 then
    let r ← responseHttp send (notFoundInfo (← textAt recv.s req.httpVersion))
    return (recv.resetData, r)
  else
    let recv ← printOver recv (htmlFor (← str recv.s (← deref req.requestMethod)))
    let version ← textAt recv.s req.httpVersion
    let r ← responseHttp send (notImplementedInfo version (← textAt recv.s (some 0)))
    return (recv.resetData, r)

-- ════════════════════════════════════════════════════════════════════════
-- Where the version stands
-- ════════════════════════════════════════════════════════════════════════

/-- The index of the version in the buffer. -/
def versionAt (method target : List UInt8) : Nat := method.length + 1 + target.length + 1 + 5

/-- The buffer holds the request line with its three strings, and the pointers of the request
are those to them. -/
structure Shows (s : List UInt8) (req : RequestInfo) (method target version : List UInt8) :
    Prop where
  methodAt : req.requestMethod = some 0
  uriAt : req.requestUri = some (method.length + 1)
  queryAt : ∀ path query, target = path ++ 63 :: query → 63 ∉ path →
    req.queryString = some (method.length + 1 + path.length + 1)
  pointer : req.httpVersion = some (versionAt method target)
  bytes : ∃ w, s = method ++ 0 :: (decodedTarget target ++ 0 :: (textHttp ++ version ++ 0 :: w))
  noNul : 0 ∉ method ∧ 0 ∉ target ∧ 0 ∉ textHttp ++ version

section Parser

variable {h z method target version junk rest : List UInt8} {body : Nat} {p : Parse}

/-- The query begins behind the first `?` of the target. -/
theorem decodeTarget_pointer {s a x r s' : List UInt8} {i : Nat} {q : Option Nat}
    (h : decodeTarget s i = .ok (s', q)) (hs : s = a ++ (x ++ 63 :: r)) (hi : i = a.length)
    (hx0 : 0 ∉ x) (hx : 63 ∉ x) : q = some (i + x.length + 1) := by
  have hfuel : (x ++ 63 :: r).length < s.length + 1 := by
    simp only [hs, List.length_append]
    omega
  have hsplit := splitUri_scan (q := none) hs hi hfuel
  rw [scan_cut hx0 hx] at hsplit
  rw [decodeTarget, hsplit, ok_bind] at h
  obtain ⟨s₁, -, h⟩ := bind_eq_ok.mp h
  obtain ⟨s₂, -, h⟩ := bind_eq_ok.mp h
  exact (Prod.mk.inj (Except.ok.inj h)).2.symm

/-- The parser leaves the version where it was, whatever it does to the target and to what
follows. -/
theorem shows_of_parse (hend : headerEnd <:+ h)
    (hline : readLine h = .full method target version junk rest) (hzero : ∀ b ∈ z, b = 0)
    (hparse : parseRequest (h ++ 0 :: z) body = .ok p) :
    Shows p.s p.req method target version := by
  have hlines : (headerLines rest.length rest).length ≤ httpMaxHeaders := by
    by_contra hmore
    rw [parse_table hend hline (Nat.lt_of_not_le hmore)] at hparse
    exact absurd hparse (by simp)
  obtain ⟨hp, hm0, h0, hver, -⟩ := requestLine_full z body hend hline
  obtain ⟨rest', -, -, hheaders⟩ := parse_headers z body hend hline hlines
  have hver0 := version_noNul hver
  have hnil : textHttp ++ version ≠ [] := by simp [textHttp]
  have hlast : (target ++ 0 :: (textHttp ++ version ++ 0 ::
      (junk ++ 10 :: (layout (headerLines rest.length rest) ++ (rest' ++ 0 :: z))))).getLast? =
        some 0 := by
    rw [← List.append_assoc (layout _)]
    exact getLast_line hzero
  have htail := decodeTarget_settled (a := method ++ [0]) (i := method.length + 1) rfl (by simp)
    hlast
  rw [settled_behind h0 hver0 (version_noQuery hver) hnil] at htail
  rw [parseRequest, hp, ok_bind, if_neg (by exact Bool.false_ne_true), hheaders, cutLine_append]
    at hparse
  simp only [ok_bind, deref, afterLine] at hparse
  cases hbehind : (if target = [] ∨ 63 ∈ target then
      some (junk ++ 10 :: (layout (headerLines rest.length rest) ++ (rest' ++ 0 :: z)))
    else editBehind
      (junk ++ 10 :: (layout (headerLines rest.length rest) ++ (rest' ++ 0 :: z)))) with
  | none =>
    rw [hbehind] at htail
    rw [show decodeTarget _ _ = .error .bounds from htail, error_bind] at hparse
    exact absurd hparse (by simp)
  | some w' =>
    rw [hbehind] at htail
    obtain ⟨q, hq, -⟩ := htail
    rw [hq, ok_bind] at hparse
    obtain rfl := Except.ok.inj hparse
    refine ⟨rfl, rfl, fun path query htarget hpath => ?_, rfl, ⟨w', ?_⟩, hm0, h0, hver0⟩
    · have hpath0 : 0 ∉ path := fun h => h0 (htarget ▸ List.mem_append_left _ h)
      refine decodeTarget_pointer (a := method ++ [0]) (r := query ++ 0 :: (textHttp ++ version ++
        0 :: (junk ++ 10 :: (layout (headerLines rest.length rest) ++ (rest' ++ 0 :: z))))) hq ?_
        (by simp) hpath0 hpath
      rw [htarget]
      simp
    · rw [List.append_assoc]
      rfl

end Parser

-- ════════════════════════════════════════════════════════════════════════
-- What is written
-- ════════════════════════════════════════════════════════════════════════

/-- The version that the status line shows. For the last answer that is what stands at its place
when the text has been printed over it: the rest of the text, or nothing, or the version. -/
def shownVersion (code : Nat) (html version : List UInt8) (p : Nat) : List UInt8 :=
  if code = 501 ∧ p ≤ html.length then html.drop p else version

/-- What the answer says. -/
def replyInfo (code : Nat) (shown html : Text) : ResponseInfo :=
  if code = 505 then versionNotSupported
  else if code = 413 then tooLargeInfo shown
  else if code = 404 then notFoundInfo shown
  else notImplementedInfo shown html

section Write

variable {s : List UInt8} {send recv : TstData} {req : RequestInfo}
  {method target version html : List UInt8}

/-- A string that has been found has no NUL in it. -/
theorem str_noNul {i : Nat} {x : List UInt8} (h : str s i = .ok x) : 0 ∉ x := by
  by_cases hmem : 0 ∈ s.drop i
  · have hi : i = (s.take i).length := by
      have hlt := List.length_pos_of_mem hmem
      rw [List.length_drop] at hlt
      rw [List.length_take, Nat.min_eq_left (by omega)]
    rw [str_at (List.take_append_drop i s).symm hi hmem] at h
    obtain rfl := Except.ok.inj h
    exact not_mem_cstr _
  · have hnone : (s.drop i).findIdx? (· = 0) = none := by
      rw [List.findIdx?_eq_none_iff]
      intro b hb
      exact decide_eq_false fun h0 => hmem (h0 ▸ hb)
    rw [str, find, hnone] at h
    exact absurd h (by simp)

theorem textAt_eq {i : Nat} {x : List UInt8} (h : str s i = .ok x) (hx : 0 ∉ x) :
    textAt s (some i) = .ok ⟨x, hx⟩ := by
  rw [textAt, deref, ok_bind, h, ok_bind]
  exact congrArg Except.ok (Subtype.ext (cstr_of_noNul hx))

theorem Shows.version_noNul (h : Shows s req method target version) : 0 ∉ version :=
  fun hmem => h.noNul.2.2 (List.mem_append_right _ hmem)

/-- The version is where it should be. -/
theorem Shows.split (h : Shows s req method target version) :
    ∃ a w, s = a ++ (version ++ 0 :: w) ∧ a.length = versionAt method target := by
  obtain ⟨w, hs⟩ := h.bytes
  refine ⟨method ++ 0 :: (decodedTarget target ++ 0 :: textHttp), w, ?_, ?_⟩
  · rw [hs]
    simp
  · simp only [versionAt, List.length_append, List.length_cons, List.length_nil,
      length_decodedTarget, textHttp]
    omega

theorem Shows.str_version (h : Shows s req method target version) :
    deref req.httpVersion >>= str s = .ok version := by
  obtain ⟨a, w, hs, ha⟩ := h.split
  rw [h.pointer]
  exact str_text hs ha.symm h.version_noNul

theorem Shows.textAt (h : Shows s req method target version) :
    textAt s req.httpVersion = .ok ⟨version, h.version_noNul⟩ := by
  have hversion := h.str_version
  rw [h.pointer, deref, ok_bind] at hversion
  rw [h.pointer]
  exact textAt_eq hversion h.version_noNul

theorem Shows.str_method (h : Shows s req method target version) :
    deref req.requestMethod >>= str s = .ok method := by
  obtain ⟨w, hs⟩ := h.bytes
  rw [h.methodAt]
  exact str_text (a := []) hs rfl h.noNul.1

theorem Shows.str_uri (h : Shows s req method target version) :
    deref req.requestUri >>= str s = .ok (uriText target) := by
  obtain ⟨w, hs⟩ := h.bytes
  have hsplit : s = (method ++ [0]) ++
      (decodedTarget target ++ 0 :: (textHttp ++ version ++ 0 :: w)) := by
    rw [hs]
    simp
  rw [h.uriAt, deref, ok_bind, str_at hsplit (by simp) (by simp), cstr_decodedTarget h.noNul.2.1]

theorem drop_noNul (hhtml : 0 ∉ html) (p : Nat) : 0 ∉ html.drop p :=
  fun h => hhtml (List.mem_of_mem_drop h)

theorem shownVersion_noNul (code : Nat) (hhtml : 0 ∉ html) (hversion : 0 ∉ version) (p : Nat) :
    0 ∉ shownVersion code html version p := by
  rw [shownVersion]
  split
  · exact drop_noNul hhtml p
  · exact hversion

/-- The text is printed over the version, or up to it, or in front of it. -/
theorem Shows.overwritten (h : Shows s req method target version) (hhtml : 0 ∉ html)
    (hroom : html.length < s.length) :
    ∃ s', sprintf s 0 html = .ok s' ∧ str s' 0 = .ok html ∧
      str s' (versionAt method target) =
        .ok (shownVersion 501 html version (versionAt method target)) := by
  obtain ⟨a, w, hs, ha⟩ := h.split
  have hprint : sprintf s 0 html = .ok (html ++ 0 :: s.drop (html.length + 1)) := by
    rw [sprintf, if_pos (by omega), splice_eq (by simp; omega)]
    simp
  refine ⟨_, hprint, str_text (a := []) rfl rfl hhtml, ?_⟩
  by_cases hle : versionAt method target ≤ html.length
  · -- the pointer is into the text, or at its end
    rw [shownVersion, if_pos ⟨rfl, hle⟩]
    refine str_text (a := html.take (versionAt method target)) (r := s.drop (html.length + 1))
      ?_ ?_ (drop_noNul hhtml _)
    · rw [← List.append_assoc, List.take_append_drop]
    · rw [List.length_take, Nat.min_eq_left hle]
  · rw [shownVersion, if_neg fun hnot => hle hnot.2]
    refine str_text (a := html ++ 0 :: a.drop (html.length + 1)) (r := w) ?_ ?_ h.version_noNul
    · rw [hs, List.drop_append_of_le_length (by omega), List.append_assoc, List.cons_append]
    · rw [List.length_append, List.length_cons, List.length_drop]
      omega

theorem htmlFor_noNul (method : List UInt8) : 0 ∉ htmlFor method := by
  rw [htmlFor]
  split
  · exact of_decide_eq_true rfl
  · exact of_decide_eq_true rfl

/-- The texts end with `>`, a version does not. -/
theorem drop_ne_version (method : List UInt8) (p : Nat)
    (hversion : version = text10 ∨ version = text11) : (htmlFor method).drop p ≠ version := by
  intro heq
  have hlast : (htmlFor method).getLast? = some 62 := by
    rw [htmlFor]
    split <;> rfl
  have hne : version.getLast? ≠ some 62 ∧ version ≠ [] := by
    rcases hversion with rfl | rfl <;> decide
  rw [← List.take_append_drop p (htmlFor method), heq, List.getLast?_append_of_ne_nil _ hne.2]
    at hlast
  exact hne.1 hlast

/-- The answer is written as it is printed. -/
theorem Shows.respond (h : Shows recv.s req method target version) (code : Nat)
    (hroom : code = 501 → (htmlFor method).length < recv.s.length) (hwf : send.WF) (shown : Text)
    (hshown : shown.val =
      shownVersion code (htmlFor method) version (versionAt method target))
    (hcode : code = 505 ∨ code = 413 ∨ code = 404 ∨ code = 501)
    (hfit : (replyInfo code shown ⟨htmlFor method, htmlFor_noNul method⟩).serialize.length <
      send.sLen.toNat) :
    ∃ recv' send', httpRespond send recv req code =
      .ok (recv', send',
        (replyInfo code shown ⟨htmlFor method, htmlFor_noNul method⟩).serialize) := by
  have hkept : code ≠ 501 → shown = ⟨version, h.version_noNul⟩ := by
    intro hne
    exact Subtype.ext (hshown.trans (if_neg fun hnot => hne hnot.1))
  obtain ⟨send', hsend⟩ := responseHttp_serialize _ hwf hfit
  rw [httpRespond]
  rw [replyInfo] at hsend ⊢
  rcases hcode with rfl | rfl | rfl | rfl
  · simp only [if_true] at hsend ⊢
    exact ⟨recv, send', by rw [hsend]; rfl⟩
  · simp only [Nat.reduceEqDiff, if_false, if_true] at hsend ⊢
    rw [h.textAt, ok_bind, ← hkept (by decide), hsend]
    exact ⟨recv, send', rfl⟩
  · simp only [Nat.reduceEqDiff, if_false, if_true] at hsend ⊢
    rw [h.textAt, ok_bind, ← hkept (by decide), hsend]
    exact ⟨recv.resetData, send', rfl⟩
  · simp only [Nat.reduceEqDiff, if_false] at hsend ⊢
    obtain ⟨s', hprint, hstr, hversion⟩ := h.overwritten (htmlFor_noNul method) (hroom rfl)
    rw [← hshown] at hversion
    have hmethod := h.str_method
    rw [h.methodAt, deref, ok_bind] at hmethod
    rw [h.methodAt, h.pointer, deref, ok_bind, hmethod, ok_bind, printOver, hprint]
    simp only [ok_bind, pure, Except.pure]
    rw [textAt_eq hversion shown.property, ok_bind, textAt_eq hstr (htmlFor_noNul method), ok_bind,
      hsend]
    exact ⟨_, send', rfl⟩

end Write

-- ════════════════════════════════════════════════════════════════════════
-- Every request
-- ════════════════════════════════════════════════════════════════════════

/-- What `http()` comes to when all bytes of a request have been received. -/
def resultOf {sLen : UInt32} (routes : List (List UInt8)) (r : HttpRequest sLen) :
    Except Fault HttpResult := do
  let m ← httpMessage (holding sLen r.block) routes
  if m.outcome = .body then httpBody (withBody m.recv r.body 0) m.req routes else return m

section Requests

variable {h method target version junk rest : List UInt8} {sLen : UInt32} {d : TstData}
  {req : RequestInfo} {routes : List (List UInt8)} {r : HttpResult} {code : Nat}

/-- A request that is not for a body leaves the buffer and the request alone. -/
theorem httpRequest_same (hr : httpRequest d req routes = .ok r) :
    r.recv = d ∧ r.req = req ∧ ∀ code, r.outcome = .respond code → code = 404 ∨ code = 501 := by
  rw [httpRequest] at hr
  obtain ⟨key, -, hr⟩ := bind_eq_ok.mp hr
  cases key with
  | some key =>
    obtain ⟨i, -, hr⟩ := bind_eq_ok.mp hr
    obtain ⟨version, -, hr⟩ := bind_eq_ok.mp hr
    obtain rfl := Except.ok.inj hr
    exact ⟨rfl, rfl, fun _ h => absurd h (by simp)⟩
  | none =>
    obtain ⟨outcome, hroute, hr⟩ := bind_eq_ok.mp hr
    obtain rfl := Except.ok.inj hr
    refine ⟨rfl, rfl, ?_⟩
    rintro code rfl
    rw [checkRoute] at hroute
    obtain ⟨i, -, hroute⟩ := bind_eq_ok.mp hroute
    obtain ⟨method, -, hroute⟩ := bind_eq_ok.mp hroute
    split at hroute
    · obtain ⟨j, -, hroute⟩ := bind_eq_ok.mp hroute
      obtain ⟨uri, -, hroute⟩ := bind_eq_ok.mp hroute
      split at hroute
      · exact absurd (Except.ok.inj hroute) (by simp)
      · split at hroute
        · exact .inl (HttpOutcome.respond.inj (Except.ok.inj hroute)).symm
        · exact .inr (HttpOutcome.respond.inj (Except.ok.inj hroute)).symm
    · exact .inr (HttpOutcome.respond.inj (Except.ok.inj hroute)).symm

/-- What `http()` leaves of a request is what the parser has left. -/
theorem httpMessage_parsed (hlen : h.length < sLen.toNat)
    (hr : httpMessage (holding sLen h) routes = .ok r) :
    ∃ p, parseRequest (h ++ 0 :: behind sLen h) h.length = .ok p ∧ r.recv.s = p.s ∧
      r.req = p.req ∧
      ∀ code, r.outcome = .respond code → code = 505 ∨ code = 413 ∨ code = 404 ∨ code = 501 := by
  rw [httpMessage, closeMessage_holding hlen, ok_bind, comLen_holding hlen] at hr
  obtain ⟨p, hparse, hr⟩ := bind_eq_ok.mp hr
  refine ⟨p, hparse, ?_⟩
  split at hr
  · obtain rfl := Except.ok.inj hr
    exact ⟨rfl, rfl, fun _ h => .inl (HttpOutcome.respond.inj h).symm⟩
  · obtain ⟨length, -, hr⟩ := bind_eq_ok.mp hr
    split at hr
    · obtain ⟨hrecv, hreq, hcode⟩ := httpRequest_same hr
      rw [hrecv, hreq]
      exact ⟨rfl, rfl, fun code h => .inr (.inr (hcode code h))⟩
    · split at hr
      · obtain rfl := Except.ok.inj hr
        exact ⟨rfl, rfl, fun _ h => .inr (.inl (HttpOutcome.respond.inj h).symm)⟩
      · obtain rfl := Except.ok.inj hr
        exact ⟨rfl, rfl, fun _ h => absurd h (by simp)⟩

theorem behind_zero (b : UInt8) (hb : b ∈ behind sLen h) : b = 0 := List.eq_of_mem_replicate hb

/-- The request line stands in the buffer of a request that has been parsed. -/
theorem httpMessage_shows (hlen : h.length < sLen.toNat) (hend : headerEnd <:+ h)
    (hline : readLine h = .full method target version junk rest)
    (hr : httpMessage (holding sLen h) routes = .ok r) :
    Shows r.recv.s r.req method target version ∧
      ∀ code, r.outcome = .respond code → code = 505 ∨ code = 413 ∨ code = 404 ∨ code = 501 := by
  obtain ⟨p, hparse, hs, hreq, hcode⟩ := httpMessage_parsed hlen hr
  rw [hs, hreq]
  exact ⟨shows_of_parse hend hline behind_zero hparse, hcode⟩

/-- What is stored behind the request line does not bear on it. -/
theorem Shows.before {s s' : List UInt8} (h : Shows s req method target version) {n : Nat}
    (hn : versionAt method target + version.length < n) (hsame : s'.take n = s.take n) :
    Shows s' req method target version := by
  obtain ⟨w, hs⟩ := h.bytes
  obtain ⟨line, hwhole⟩ : ∃ line : List UInt8, ∀ x : List UInt8, line ++ x =
      method ++ 0 :: (decodedTarget target ++ 0 :: (textHttp ++ version ++ 0 :: x)) :=
    ⟨method ++ 0 :: (decodedTarget target ++ 0 :: (textHttp ++ version ++ [0])), fun x => by simp⟩
  have hlen : line.length = versionAt method target + version.length + 1 := by
    have hlen := congrArg List.length (hwhole [])
    simp only [List.length_append, List.length_cons, List.length_nil, length_decodedTarget,
      textHttp] at hlen
    rw [versionAt]
    omega
  refine ⟨h.methodAt, h.uriAt, h.queryAt, h.pointer,
    ⟨w.take (n - line.length) ++ s'.drop n, ?_⟩, h.noNul⟩
  rw [← hwhole]
  calc s' = s'.take n ++ s'.drop n := (List.take_append_drop n s').symm
    _ = (line ++ w).take n ++ s'.drop n := by rw [hsame, hs, hwhole]
    _ = line ++ w.take (n - line.length) ++ s'.drop n := by
      rw [List.take_append, List.take_of_length_le (by omega)]
    _ = line ++ (w.take (n - line.length) ++ s'.drop n) := List.append_assoc ..

/-- The request line is part of the block. -/
theorem versionAt_lt (hend : headerEnd <:+ h)
    (hline : readLine h = .full method target version junk rest) :
    versionAt method target + version.length < h.length := by
  obtain ⟨hp, -, -, -, -⟩ := requestLine_full [] 0 hend hline
  have hlen := requestLine_length hp
  simp only [afterLine, cutLine, List.length_append, List.length_cons, List.length_nil, textHttp]
    at hlen
  rw [versionAt]
  omega

/-- With a header line the query ends in front of the end of the block. -/
theorem query_before {z : List UInt8} {body : Nat} {p : Parse} (hend : headerEnd <:+ h)
    (hline : readLine h = .full method target version junk rest)
    (hsome : headerLines rest.length rest ≠ [])
    (hparse : parseRequest (h ++ 0 :: z) body = .ok p) :
    ∃ e < h.length, p.s[e]? = some 0 ∧ ∀ j, p.req.queryString = some j → j ≤ e := by
  have hlines : (headerLines rest.length rest).length ≤ httpMaxHeaders := by
    by_contra hmore
    rw [parse_table hend hline (Nat.lt_of_not_le hmore)] at hparse
    exact absurd hparse (by simp)
  obtain ⟨hp, -⟩ := requestLine_full z body hend hline
  obtain ⟨rest', -, -, hheaders⟩ := parse_headers z body hend hline hlines
  obtain ⟨line, ls, hls⟩ := List.exists_cons_of_ne_nil hsome
  have hlen := (parseHeaders_length hheaders).trans (requestLine_length hp)
  rw [hls, layout_cons] at hheaders hlen
  generalize hname : (fieldOf line).name ++ markTail line = name at hheaders hlen
  have hbuffer : cutLine method target version junk ++
      (name ++ [0, 0] ++ layout ls ++ (rest' ++ 0 :: z)) =
        (cutLine method target version junk ++ name) ++
          0 :: 0 :: (layout ls ++ (rest' ++ 0 :: z)) := by simp
  rw [hbuffer] at hheaders hlen
  have hcut : method.length + 1 ≤ (cutLine method target version junk).length := by
    simp only [cutLine, List.length_append, List.length_cons]
    omega
  simp only [List.length_append, List.length_cons] at hlen
  rw [parseRequest, hp, ok_bind, if_neg (by exact Bool.false_ne_true), hheaders] at hparse
  simp only [ok_bind, deref, afterLine] at hparse
  obtain ⟨⟨s, q⟩, hdecode, hparse⟩ := bind_eq_ok.mp hparse
  obtain rfl := Except.ok.inj hparse
  have hnuls : ∀ a x : List UInt8, (a ++ 0 :: 0 :: x)[a.length]? = some 0 ∧
      (a ++ 0 :: 0 :: x)[a.length + 1]? = some 0 := fun a x => by simp
  obtain ⟨he, he'⟩ := hnuls (cutLine method target version junk ++ name)
    (layout ls ++ (rest' ++ 0 :: z))
  obtain ⟨hbefore, hnul⟩ := decodeTarget_before hdecode he he' (by rw [List.length_append]; omega)
  refine ⟨_, ?_, hnul, hbefore⟩
  rw [List.length_append]
  omega

/-- What a request leaves, whether it has a body or not: a body is stored behind the block. -/
theorem resultOf_parsed (req : HttpRequest sLen) (hr : resultOf routes req = .ok r) :
    ∃ p, parseRequest (req.block ++ 0 :: behind sLen req.block) req.block.length = .ok p ∧
      r.req = p.req ∧ r.recv.s.length = sLen.toNat ∧
      (r.recv.s = p.s ∨ declaredLength req.block ≠ 0 ∧
        r.recv.s.take req.block.length = p.s.take req.block.length) ∧
      ∀ code, r.outcome = .respond code → code = 505 ∨ code = 413 ∨ code = 404 ∨ code = 501 := by
  have hend : headerEnd <:+ req.block := List.isSuffixOf_iff_suffix.mp req.piece.1
  rw [resultOf] at hr
  obtain ⟨m, hm, hr⟩ := bind_eq_ok.mp hr
  obtain ⟨p, hparse, hs, hreq, hcode⟩ := httpMessage_parsed req.block_lt hm
  have hlen : m.recv.s.length = sLen.toNat :=
    (httpMessage_size hm).length.trans (length_counted (c := 0) req.block_lt.le)
  refine ⟨p, hparse, ?_⟩
  split at hr
  · next hbody =>
    obtain ⟨s, hdeclared, -, -, -, harm⟩ := message_body req.block_lt hend hm hbody
    have hpos : m.recv.reqPos.toNat = req.block.length := by
      rw [harm]
      exact comLen_holding req.block_lt
    have hfits := req.fits
    rw [httpBody] at hr
    obtain ⟨d, hd, hr⟩ := bind_eq_ok.mp hr
    obtain ⟨hrecv, hreq', hcode'⟩ := httpRequest_same hr
    obtain ⟨s', hstore, hs'⟩ := bind_eq_ok.mp hd
    obtain rfl := Except.ok.inj hs'
    have hnul : (m.recv.reqPos + UInt32.ofNat req.body.length).toNat =
        req.block.length + req.body.length := by
      have hmax := sLen.toNat_lt
      rw [UInt32.toNat_add, hpos, UInt32.toNat_ofNat', Nat.mod_eq_of_lt (by omega),
        Nat.mod_eq_of_lt (by omega)]
    have hs' : s' = (splice m.recv.s req.block.length req.body).set
        (req.block.length + req.body.length) 0 := by
      rw [← hnul, ← hpos]
      exact store_eq_ok hstore
    rw [hrecv, hreq']
    refine ⟨hreq, ?_, .inr ⟨hdeclared, ?_⟩, fun code h => .inr (.inr (hcode' code h))⟩
    · simp only [hs', List.length_set, length_splice, hlen]
    · simp only [hs', List.take_set_of_le (Nat.le_add_right _ _), ← hs]
      exact take_splice (by omega) (Nat.le_refl _)
  · obtain rfl := Except.ok.inj hr
    exact ⟨hreq, hlen, .inl hs, hcode⟩

/-- The request line stands in the buffer of a request, whether it has a body or not. -/
theorem resultOf_shows (req : HttpRequest sLen)
    (hline : readLine req.block = .full method target version junk rest)
    (hr : resultOf routes req = .ok r) :
    Shows r.recv.s r.req method target version ∧ r.recv.s.length = sLen.toNat ∧
      ∀ code, r.outcome = .respond code → code = 505 ∨ code = 413 ∨ code = 404 ∨ code = 501 := by
  have hend : headerEnd <:+ req.block := List.isSuffixOf_iff_suffix.mp req.piece.1
  obtain ⟨p, hparse, hreq, hlen, hs, hcode⟩ := resultOf_parsed req hr
  have hshows := shows_of_parse hend hline behind_zero hparse
  rw [hreq]
  refine ⟨?_, hlen, hcode⟩
  rcases hs with hs | ⟨-, hsame⟩
  · rw [hs]
    exact hshows
  · exact hshows.before (versionAt_lt hend hline) hsame

/-- Without a header line no body is announced. -/
theorem declaredLength_nil (hline : readLine h = .full method target version junk rest)
    (hnil : headerLines rest.length rest = []) : declaredLength h = 0 := by
  rw [declaredLength, blockFields, hline]
  simp only [hnil]
  rfl

/-- The query that is found by the route, whether the request has a body or not. -/
theorem resultOf_query (req : HttpRequest sLen)
    (hline : readLine req.block = .full method target version junk rest) (htarget : target ≠ [])
    (hr : resultOf routes req = .ok r) :
    deref r.req.queryString >>= str r.recv.s = .ok (blockQuery target junk rest) := by
  have hend : headerEnd <:+ req.block := List.isSuffixOf_iff_suffix.mp req.piece.1
  obtain ⟨p, hparse, hreq, -, hs, -⟩ := resultOf_parsed req hr
  obtain ⟨i, hi, hstr⟩ := ((parsed_of_full hend hline behind_zero hparse).2 htarget).query
  rw [hreq, hi, deref, ok_bind]
  rcases hs with hs | ⟨hdeclared, hsame⟩
  · rw [hs]
    exact hstr
  · have hsome : headerLines rest.length rest ≠ [] :=
      fun hnil => hdeclared (declaredLength_nil hline hnil)
    obtain ⟨e, hlt, hnul, hbefore⟩ := query_before hend hline hsome hparse
    exact str_take hstr (hbefore i hi) hnul hlt hsame

end Requests

end Tst
