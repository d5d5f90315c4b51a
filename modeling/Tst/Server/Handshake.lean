import Tst.Http.Base64
import Tst.Lib.Fips180
import Tst.Server.Reply
import Tst.Server.UserData
import Tst.WebSocket.RoundTrip

/-!
# The upgrade to a WebSocket

`http()` answers a request for an upgrade with the digest of the key that the request carries,
and calls `websocket()` for the first time: that looks the URI up in `g_websocket`, and takes
leave of a connection whose URI is not listed there.

The function that computes the digest is not part of the repository.

## Main definitions

- `upgrade` — from the request to the end of that call

## Main results

- `upgrade_written` — what is written for a request, and when a text leaves the send buffer
-/

namespace Tst

open Bytes CString ByteOrder Framing

/-- `magic`. -/
def magic : List UInt8 :=
  [50, 53, 56, 69, 65, 70, 65, 53, 45, 69, 57, 49, 52, 45, 52, 55, 68, 65, 45, 57, 53, 67, 65, 45,
    67, 53, 65, 66, 48, 68, 67, 56, 53, 66, 49, 49]

/-- What follows the version in the answer, up to the digest. -/
def textSwitching : List UInt8 :=
  [32, 49, 48, 49, 32, 83, 119, 105, 116, 99, 104, 105, 110, 103, 32, 80, 114, 111, 116, 111, 99,
    111, 108, 115, 13, 10, 85, 112, 103, 114, 97, 100, 101, 58, 32, 119, 101, 98, 115, 111, 99, 107,
    101, 116, 13, 10, 67, 111, 110, 110, 101, 99, 116, 105, 111, 110, 58, 32, 85, 112, 103, 114, 97,
    100, 101, 13, 10, 83, 101, 99, 45, 87, 101, 98, 83, 111, 99, 107, 101, 116, 45, 65, 99, 99, 101,
    112, 116, 58, 32]

/-- The two parts of the text for a URI that is not listed, in UTF-8. -/
def textRefused : List UInt8 :=
  [236, 154, 148, 236, 178, 173, 237, 149, 156, 32, 117, 114, 105, 32, 39]
def textUnlisted : List UInt8 :=
  [39, 32, 235, 138, 148, 32, 236, 167, 128, 236, 155, 144, 237, 149, 152, 236, 167, 128, 32, 236,
    149, 138, 235, 138, 148, 32, 235, 157, 188, 236, 154, 176, 237, 140, 133, 32, 236, 160, 149,
    235, 179, 180, 236, 158, 133, 235, 139, 136, 235, 139, 164, 46]

/-- The answer to a request for an upgrade. -/
def upgradeText (version accept : List UInt8) : List UInt8 :=
  textHttp ++ version ++ textSwitching ++ accept ++ crlf ++ crlf

/-- The text for a URI that is not listed. -/
def refusalText (uri : List UInt8) : List UInt8 := textRefused ++ uri ++ textUnlisted

/-- The arrays `buf` and `b64_sha`, which hold anything at first. -/
structure UpgradeArrays where
  buf : List UInt8
  b64Sha : List UInt8
  length_buf : buf.length = 100
  length_b64Sha : b64Sha.length = 40

/-- The digest of the key and `magic` as it is printed. The text is cut at the end of `buf`. -/
def acceptText (sha1 : List UInt8 → List UInt8) (a : UpgradeArrays) (key : List UInt8) :
    Except Fault (List UInt8) := do
  let buf ← snprintf a.buf 0 100 (key ++ magic)
  let b64Sha ← base64Encode (sha1 (← str buf 0)) 20 a.b64Sha
  str b64Sha 0

/-- The answer to a request for an upgrade is printed and written. -/
def sendUpgrade (sha1 : List UInt8 → List UInt8) (a : UpgradeArrays) (send : TstData)
    (version key : List UInt8) : Except Fault (TstData × List UInt8) := do
  let text := upgradeText version (← acceptText sha1 a key)
  let s ← sprintf send.s 0 text
  writeOut { send with s, comLen := UInt32.ofNat text.length }

/-- What the first call of `websocket()` leaves: the send buffer, the bytes that it has written,
the name of the user function, and its answer. -/
structure Connected where
  send : TstData
  sent : List UInt8
  func : Option (List UInt8)
  next : TstStat

/-- The first call of `websocket()`, for that URI. -/
def connect (wsRoutes : List (List UInt8)) (send : TstData) (uri : List UInt8) :
    Except Fault Connected :=
  if wsRoutes.contains uri then .ok { send, sent := [], func := some uri, next := .suspend }
  else do
    let s ← sprintf send.s 0 (refusalText uri)
    return {
      send := { send with s }
      sent := (wsWritetext (some (← str s 0))).1 ++ wsWritedisconnect
      func := none
      next := .disconnect }

/-- `http()` from a request for an upgrade on. -/
def upgrade (sha1 : List UInt8 → List UInt8) (a : UpgradeArrays) (wsRoutes : List (List UInt8))
    (send recv : TstData) (req : RequestInfo) (version key : List UInt8) :
    Except Fault Connected := do
  let (send, reply) ← sendUpgrade sha1 a send version key
  let c ← connect wsRoutes send (← str recv.s (← deref req.requestUri))
  return { c with sent := reply ++ c.sent }

-- ════════════════════════════════════════════════════════════════════════
-- The strings of a request for an upgrade
-- ════════════════════════════════════════════════════════════════════════

section Strings

variable {s name : List UInt8} {headers : List HttpHeader} {req : RequestInfo} {d : TstData}
  {routes : List (List UInt8)} {r : HttpResult} {version key : List UInt8} {sLen : UInt32}

theorem getHttpheader_noNul {x : List UInt8} (h : getHttpheader s headers name = .ok (some x)) :
    0 ∉ x := by
  induction headers with
  | nil =>
    obtain rfl := Option.some.inj (Except.ok.inj h)
    exact List.not_mem_nil
  | cons header headers ih =>
    rw [getHttpheader] at h
    obtain ⟨y, -, h⟩ := bind_eq_ok.mp h
    split at h
    · split at h
      · exact absurd (Except.ok.inj h) (by simp)
      · obtain ⟨z, hz, h⟩ := bind_eq_ok.mp h
        obtain rfl := Option.some.inj (Except.ok.inj h)
        exact str_noNul hz
    · exact ih h

/-- The strings of a request for an upgrade. -/
theorem httpRequest_upgrade (hr : httpRequest d req routes = .ok r)
    (hup : r.outcome = .upgrade version key) :
    r.recv = d ∧ r.req = req ∧ deref req.httpVersion >>= str d.s = .ok version ∧
      upgradeKey d.s req = .ok (some key) ∧ 0 ∉ key ∧ req.httpHeaders ≠ [] := by
  rw [httpRequest] at hr
  obtain ⟨asked, hasked, hr⟩ := bind_eq_ok.mp hr
  cases asked with
  | none =>
    obtain ⟨outcome, hroute, hr⟩ := bind_eq_ok.mp hr
    obtain rfl := Except.ok.inj hr
    change outcome = _ at hup
    subst hup
    rw [checkRoute] at hroute
    obtain ⟨i, -, hroute⟩ := bind_eq_ok.mp hroute
    obtain ⟨method, -, hroute⟩ := bind_eq_ok.mp hroute
    split at hroute
    · obtain ⟨j, -, hroute⟩ := bind_eq_ok.mp hroute
      obtain ⟨uri, -, hroute⟩ := bind_eq_ok.mp hroute
      split at hroute
      · exact absurd (Except.ok.inj hroute) (by simp)
      · split at hroute
        · exact absurd (Except.ok.inj hroute) (by simp)
        · exact absurd (Except.ok.inj hroute) (by simp)
    · exact absurd (Except.ok.inj hroute) (by simp)
  | some key' =>
    obtain ⟨i, hi, hr⟩ := bind_eq_ok.mp hr
    obtain ⟨version', hversion, hr⟩ := bind_eq_ok.mp hr
    obtain rfl := Except.ok.inj hr
    obtain ⟨rfl, rfl⟩ := HttpOutcome.upgrade.inj hup
    have hasked' := hasked
    rw [upgradeKey] at hasked
    obtain ⟨j, -, hasked⟩ := bind_eq_ok.mp hasked
    obtain ⟨method, -, hasked⟩ := bind_eq_ok.mp hasked
    split at hasked
    · exact absurd (Except.ok.inj hasked) (by simp)
    obtain ⟨connection?, hconnection, hasked⟩ := bind_eq_ok.mp hasked
    obtain ⟨connection, hsome, hasked⟩ := bind_eq_ok.mp hasked
    split at hasked
    · exact absurd (Except.ok.inj hasked) (by simp)
    next hup' =>
    obtain ⟨upgrade?, -, hasked⟩ := bind_eq_ok.mp hasked
    obtain ⟨upgrade, -, hasked⟩ := bind_eq_ok.mp hasked
    split at hasked
    · exact absurd (Except.ok.inj hasked) (by simp)
    obtain ⟨key?, hkey, hasked⟩ := bind_eq_ok.mp hasked
    obtain ⟨key, hsomeKey, hasked⟩ := bind_eq_ok.mp hasked
    obtain rfl := Option.some.inj (Except.ok.inj hasked)
    refine ⟨rfl, rfl, by rw [hi, ok_bind, hversion], hasked', ?_, ?_⟩
    · cases key? with
      | none => exact absurd hsomeKey (by simp [deref])
      | some x =>
        obtain rfl := Except.ok.inj hsomeKey
        exact getHttpheader_noNul hkey
    · -- without header lines `Connection` is the empty string
      rintro hnil
      rw [hnil] at hconnection
      obtain rfl := Except.ok.inj hconnection
      obtain rfl := Except.ok.inj hsome
      exact hup' (by decide)

end Strings

section Request

variable {sLen : UInt32} {routes : List (List UInt8)} {r : HttpResult} {version key : List UInt8}

/-- What `http()` has come to, with or without a body. -/
theorem resultOf_cases (req : HttpRequest sLen) (hr : resultOf routes req = .ok r) :
    ∃ p z, (∀ b ∈ z, b = 0) ∧ parseRequest (req.block ++ 0 :: z) req.block.length = .ok p ∧
      ((∃ code, r.outcome = .respond code) ∨
        p.unsupported = false ∧
          ∃ d, httpRequest d p.req routes = .ok r ∧ (req.body = [] → d.s = p.s)) := by
  have hend : headerEnd <:+ req.block := List.isSuffixOf_iff_suffix.mp req.piece.1
  rw [resultOf] at hr
  obtain ⟨m, hm, hr⟩ := bind_eq_ok.mp hr
  have hm' := hm
  rw [httpMessage, closeMessage_holding req.block_lt, ok_bind, comLen_holding req.block_lt] at hm'
  obtain ⟨p, hparse, hm'⟩ := bind_eq_ok.mp hm'
  refine ⟨p, behind sLen req.block, fun b hb => List.eq_of_mem_replicate hb, hparse, ?_⟩
  split at hr
  · next hbody =>
    obtain ⟨s, hdeclared, -⟩ := message_body req.block_lt hend hm hbody
    have hne : req.body ≠ [] := by
      rintro hnil
      rw [req.declared, hnil] at hdeclared
      exact hdeclared rfl
    have hsupported : p.unsupported = false ∧ m.req = p.req := by
      split at hm'
      · obtain rfl := Except.ok.inj hm'
        exact absurd hbody (by simp)
      · next hsupported =>
        refine ⟨Bool.eq_false_iff.mpr hsupported, ?_⟩
        obtain ⟨length, -, hm'⟩ := bind_eq_ok.mp hm'
        split at hm'
        · exact (httpRequest_same hm').2.1
        · split at hm'
          · obtain rfl := Except.ok.inj hm'
            rfl
          · obtain rfl := Except.ok.inj hm'
            rfl
    rw [httpBody, hsupported.2] at hr
    obtain ⟨d, -, hr⟩ := bind_eq_ok.mp hr
    exact .inr ⟨hsupported.1, d, hr, fun hnil => absurd hnil hne⟩
  · next hbody =>
    obtain rfl := Except.ok.inj hr
    split at hm'
    · obtain rfl := Except.ok.inj hm'
      exact .inl ⟨_, rfl⟩
    · next hsupported =>
      obtain ⟨length, -, hm'⟩ := bind_eq_ok.mp hm'
      split at hm'
      · exact .inr ⟨Bool.eq_false_iff.mpr hsupported, _, hm', fun _ => rfl⟩
      · split at hm'
        · obtain rfl := Except.ok.inj hm'
          exact .inl ⟨_, rfl⟩
        · obtain rfl := Except.ok.inj hm'
          exact absurd rfl hbody

/-- A request for an upgrade has a complete request line, and its key is that of the header
lines. -/
theorem resultOf_upgrade (req : HttpRequest sLen) (hr : resultOf routes req = .ok r)
    (hup : r.outcome = .upgrade version key) :
    ∃ method target junk rest, readLine req.block = .full method target version junk rest ∧
      0 ∉ key ∧
      (req.body = [] → lookup (blockFields req.block) textSecWebSocketKey = some key) := by
  have hend : headerEnd <:+ req.block := List.isSuffixOf_iff_suffix.mp req.piece.1
  obtain ⟨p, z, hzero, hparse, ⟨code, hcode⟩ | ⟨hsupported, d, hrequest, hsame⟩⟩ :=
    resultOf_cases req hr
  · rw [hcode] at hup
    exact absurd hup (by simp)
  obtain ⟨hrecv, hreq, hversion, hasked, hkey, hheaders⟩ := httpRequest_upgrade hrequest hup
  cases hline : readLine req.block with
  | incomplete =>
    rw [parse_incomplete hline] at hparse
    exact absurd hparse (by simp)
  | bare method target =>
    obtain ⟨p', hp', hparsed⟩ := parse_bare req.block.length hline hzero
    obtain rfl := Except.ok.inj (hparse.symm.trans hp')
    exact absurd (List.forall₂_nil_right_iff.mp hparsed.headers) hheaders
  | unsupported =>
    obtain ⟨p', hp', hunsupported⟩ := parse_unsupported z req.block.length hend hline
    obtain rfl := Except.ok.inj (hparse.symm.trans hp')
    rw [hsupported] at hunsupported
    exact absurd hunsupported Bool.false_ne_true
  | full method target version' junk rest =>
    obtain ⟨hshows, -, -⟩ := resultOf_shows req hline hr
    have hfound := hshows.str_version
    rw [hrecv, hreq, hversion] at hfound
    obtain rfl := Except.ok.inj hfound
    refine ⟨method, target, junk, rest, rfl, hkey, fun hnil => ?_⟩
    obtain ⟨hparsed, -⟩ := parsed_of_full hend hline hzero hparse
    rw [hsame hnil, upgradeKey_lookup hparsed] at hasked
    rw [blockFields, hline]
    split at hasked
    · exact absurd (Except.ok.inj hasked) (by simp)
    obtain ⟨connection, -, hasked⟩ := bind_eq_ok.mp hasked
    split at hasked
    · exact absurd (Except.ok.inj hasked) (by simp)
    obtain ⟨upgrade, -, hasked⟩ := bind_eq_ok.mp hasked
    split at hasked
    · exact absurd (Except.ok.inj hasked) (by simp)
    simp only
    cases hfield : lookup (fields target junk (headerLines rest.length rest))
        textSecWebSocketKey with
    | none =>
      rw [hfield] at hasked
      exact absurd hasked (by simp [deref, Except.map])
    | some x =>
      rw [hfield] at hasked
      exact Except.ok.inj hasked

end Request

-- ════════════════════════════════════════════════════════════════════════
-- The digest and the answer
-- ════════════════════════════════════════════════════════════════════════

/-- The text whose digest is sent: what there is room for in `buf`. -/
def keyText (key : List UInt8) : List UInt8 := (key ++ magic).take 99

theorem magic_noNul : 0 ∉ magic := by decide

theorem text_noNul : 0 ∉ textRefused ∧ 0 ∉ textUnlisted := by decide

section Answer

variable {sha1 : List UInt8 → List UInt8} {a : UpgradeArrays} {key version : List UInt8}
  {send : TstData}

theorem encoded_noNul (src : List UInt8) : 0 ∉ encoded src := by
  intro hmem
  rcases List.mem_append.mp hmem with hmem | hmem
  · have hsymbol := chars_mem src 0 hmem
    exact absurd hsymbol (by decide)
  · exact absurd (List.eq_of_mem_replicate hmem) (by decide)

theorem acceptText_eq (hsha1 : ∀ text, (sha1 text).length = 20) (hkey : 0 ∉ key) :
    acceptText sha1 a key = .ok (encoded (sha1 (keyText key))) := by
  have hbuf := a.length_buf
  have hb64 := a.length_b64Sha
  have htext : 0 ∉ keyText key := fun hmem => by
    rcases List.mem_append.mp (List.mem_of_mem_take hmem) with h | h
    · exact hkey h
    · exact magic_noNul h
  have hlen : (keyText key).length ≤ 99 := List.length_take_le ..
  obtain ⟨r, hprint⟩ : ∃ r, snprintf a.buf 0 100 (key ++ magic) = .ok (keyText key ++ 0 :: r) := by
    obtain ⟨r, hr⟩ := sprintf_eq (s := a.buf) (x := []) (keyText key) rfl (by simp; omega)
    exact ⟨r, hr⟩
  have hstr : str (keyText key ++ 0 :: r) 0 = .ok (keyText key) := str_text (a := []) rfl rfl htext
  obtain ⟨r', henc⟩ : ∃ r', base64Encode (sha1 (keyText key)) 20 a.b64Sha =
      .ok (encoded (sha1 (keyText key)) ++ 0 :: r') := by
    have henc : base64Encode (sha1 (keyText key)) (sha1 (keyText key)).length a.b64Sha = _ :=
      base64Encode_eq (by rw [hsha1]; decide) (by rw [hsha1, hb64]; decide)
    rw [hsha1 (keyText key)] at henc
    rw [encoded, hsha1 (keyText key)]
    exact ⟨_, henc⟩
  rw [acceptText, hprint, ok_bind, hstr, ok_bind, henc, ok_bind]
  exact str_text (a := []) rfl rfl (encoded_noNul _)

/-- The length of the answer. -/
theorem length_upgradeText (hsha1 : ∀ text, (sha1 text).length = 20)
    (hversion : version = text10 ∨ version = text11) (key : List UInt8) :
    (upgradeText version (encoded (sha1 (keyText key)))).length = 129 := by
  have hthree : version.length = 3 := by rcases hversion with rfl | rfl <;> rfl
  have haccept : (encoded (sha1 (keyText key))).length = 28 := by
    rw [length_encoded, hsha1]
    rfl
  simp only [upgradeText, List.length_append, hthree, haccept]
  rfl

theorem sendUpgrade_eq (hsha1 : ∀ text, (sha1 text).length = 20) (hkey : 0 ∉ key)
    (hversion : version = text10 ∨ version = text11) (a : UpgradeArrays) (send : TstData) :
    (send.s.length ≤ 129 → sendUpgrade sha1 a send version key = .error .bounds) ∧
      (129 < send.s.length → ∃ send', send'.s.length = send.s.length ∧
        sendUpgrade sha1 a send version key =
          .ok (send', upgradeText version (encoded (sha1 (keyText key))))) := by
  have hlen := length_upgradeText hsha1 hversion key
  rw [sendUpgrade, acceptText_eq hsha1 hkey, ok_bind]
  constructor
  · intro hshort
    have hout : ¬ 0 + (upgradeText version (encoded (sha1 (keyText key)))).length <
        send.s.length := by omega
    simp only [sprintf, if_neg hout, error_bind]
  · intro hroom
    obtain ⟨s', hprint, hsame, htake⟩ := sprintf_ok (s := send.s) (x := [])
      (upgradeText version (encoded (sha1 (keyText key)))) rfl (by simp; omega)
    have hcom : (UInt32.ofNat (upgradeText version (encoded (sha1 (keyText key)))).length).toNat =
        (upgradeText version (encoded (sha1 (keyText key)))).length := by
      rw [hlen]
      rfl
    refine ⟨{ send with s := s', comLen := UInt32.ofNat 129 }, hsame, ?_⟩
    rw [List.length_nil] at hprint
    rw [List.nil_append] at htake
    simp only [hprint, ok_bind, writeOut, hcom, htake]
    rw [if_pos (by omega), hlen]

/-- The frames that refuse a URI. -/
def refusal (uri : List UInt8) : List UInt8 :=
  0x81 :: writetextLen (refusalText uri).length ++ refusalText uri ++ wsWritedisconnect

theorem connect_listed {wsRoutes : List (List UInt8)} {uri : List UInt8} (h : uri ∈ wsRoutes) :
    connect wsRoutes send uri = .ok { send, sent := [], func := some uri, next := .suspend } :=
  if_pos (List.contains_iff_mem.mpr h)

theorem connect_unlisted {wsRoutes : List (List UInt8)} {uri : List UInt8} (h : uri ∉ wsRoutes)
    (huri : 0 ∉ uri) (send : TstData) :
    (send.s.length ≤ (refusalText uri).length → connect wsRoutes send uri = .error .bounds) ∧
      ((refusalText uri).length < send.s.length → ∃ send', connect wsRoutes send uri =
        .ok { send := send', sent := refusal uri, func := none, next := .disconnect }) := by
  rw [connect, if_neg fun hmem => h (List.contains_iff_mem.mp hmem)]
  constructor
  · intro hshort
    rw [sprintf, if_neg (by omega), error_bind]
  · intro hroom
    have hnul : 0 ∉ refusalText uri := by
      simp only [refusalText, List.mem_append, not_or]
      exact ⟨⟨text_noNul.1, huri⟩, text_noNul.2⟩
    obtain ⟨rest, hprint⟩ :=
      sprintf_eq (s := send.s) (x := []) (refusalText uri) rfl (by simp; omega)
    rw [List.length_nil, List.nil_append] at hprint
    have hstr : str (refusalText uri ++ 0 :: rest) 0 = .ok (refusalText uri) :=
      str_text (a := []) rfl rfl hnul
    refine ⟨{ send with s := refusalText uri ++ 0 :: rest }, ?_⟩
    rw [hprint, ok_bind, hstr, ok_bind, wsWritetext, cstr_of_noNul hnul]
    rfl

end Answer

section Upgrade

variable {sLen : UInt32} {routes wsRoutes : List (List UInt8)} {r : HttpResult}
  {version key : List UInt8}

/-- The texts of an upgrade fit into a send buffer of `n` bytes. -/
def upgradeFits (wsRoutes : List (List UInt8)) (uri : List UInt8) (n : Nat) : Prop :=
  129 < n ∧ (uri ∉ wsRoutes → (refusalText uri).length < n)

/-- What becomes of a request for an upgrade. -/
theorem Shows.upgrade {recv : TstData} {req : RequestInfo} {method target : List UInt8}
    (h : Shows recv.s req method target version) (hversion : version = text10 ∨ version = text11)
    (hkey : 0 ∉ key) {sha1 : List UInt8 → List UInt8} (hsha1 : ∀ text, (sha1 text).length = 20)
    (a : UpgradeArrays) (wsRoutes : List (List UInt8)) (send : TstData) :
    (¬ upgradeFits wsRoutes (uriText target) send.s.length →
        upgrade sha1 a wsRoutes send recv req version key = .error .bounds) ∧
      (upgradeFits wsRoutes (uriText target) send.s.length → ∃ send',
        upgrade sha1 a wsRoutes send recv req version key = .ok {
          send := send'
          sent := upgradeText version (encoded (sha1 (keyText key))) ++
            if uriText target ∈ wsRoutes then [] else refusal (uriText target)
          func := if uriText target ∈ wsRoutes then some (uriText target) else none
          next := if uriText target ∈ wsRoutes then .suspend else .disconnect }) := by
  have huri := h.str_uri
  have huri0 : 0 ∉ uriText target := not_mem_cstr _
  have hsplit : ∀ f : List UInt8 → Except Fault Connected,
      (deref req.requestUri >>= fun i => str recv.s i >>= f) = f (uriText target) := by
    intro f
    rw [← bind_assoc, huri, ok_bind]
  obtain ⟨hsmall, hlarge⟩ := sendUpgrade_eq hsha1 hkey hversion a send
  refine ⟨fun hnot => ?_, fun hfits => ?_⟩
  · by_cases hanswer : 129 < send.s.length
    · obtain ⟨send', hsame, hsent⟩ := hlarge hanswer
      have hunlisted : uriText target ∉ wsRoutes ∧
          send'.s.length ≤ (refusalText (uriText target)).length := by
        rw [upgradeFits, not_and, Classical.not_imp, Nat.not_lt] at hnot
        exact ⟨(hnot hanswer).1, hsame.trans_le (hnot hanswer).2⟩
      rw [Tst.upgrade, hsent, ok_bind]
      simp only [hsplit]
      rw [(connect_unlisted hunlisted.1 huri0 send').1 hunlisted.2, error_bind]
    · rw [Tst.upgrade, hsmall (Nat.le_of_not_lt hanswer), error_bind]
  · obtain ⟨send', hsame, hsent⟩ := hlarge hfits.1
    rw [Tst.upgrade, hsent, ok_bind]
    simp only [hsplit]
    by_cases hlisted : uriText target ∈ wsRoutes
    · rw [connect_listed hlisted, ok_bind, if_pos hlisted, if_pos hlisted, if_pos hlisted]
      exact ⟨send', rfl⟩
    · obtain ⟨send'', hsent'⟩ := (connect_unlisted hlisted huri0 send').2
        (hsame ▸ hfits.2 hlisted)
      rw [hsent', ok_bind, if_neg hlisted, if_neg hlisted, if_neg hlisted]
      exact ⟨send'', rfl⟩

end Upgrade

end Tst
