import Tst.Http.Request
import Tst.Lib.Decimal

/-!
# HTTP responses

`response_http()` prints a response into the send buffer, piece by piece, and hands the
buffer to `write()`. The empty line and the length are printed together with the body, so
that a response without a body has neither, and behind a body there are two line ends that
the length does not count.

## Main definitions

- `responseHttp` — the function
- `Framed` — the bytes are a message with the body that its length states

## Main results

- `responseHttp_serialize` — the bytes that are written
- `response_not_framed` — they are never framed
-/

namespace Tst

open Bytes CString Decimal

/-- A string without its NUL. -/
abbrev Text := { text : List UInt8 // 0 ∉ text }

/-- `RESPONSE_HEADER`. -/
structure ResponseHeader where
  name : Text
  value : Text

/-- `RESPONSE_INFO`. -/
structure ResponseInfo where
  httpVersion : Text
  httpCode : Int
  responseText : Text
  httpHeaders : List ResponseHeader := []
  htmlText : Option Text := none
  headersOk : httpHeaders.length ≤ httpMaxHeaders

/-- CR LF. -/
def crlf : List UInt8 := [13, 10]

/-- `%d`. -/
def printInt (n : Int) : List UInt8 := if n < 0 then 45 :: numeral n.natAbs else numeral n.natAbs

/-- `sprintf(s + p, …)` of that text; a NUL is stored behind it. -/
def sprintf (s : List UInt8) (p : Nat) (text : List UInt8) : Except Fault (List UInt8) :=
  if p + text.length < s.length then .ok (splice s p (text ++ [0])) else .error .bounds

/-- `snprintf(s + p, n, …)` of that text. -/
def snprintf (s : List UInt8) (p n : Nat) (text : List UInt8) : Except Fault (List UInt8) :=
  if n = 0 then .ok s else sprintf s p (text.take (n - 1))

/-- What a print returns: the length that the text has, or -1 when that is no `int`. -/
def wouldBe (text : List UInt8) : UInt32 :=
  if text.length < 2 ^ 31 then UInt32.ofNat text.length else 0 - 1

/-- `com_len += snprintf(s + com_len, s_len - com_len, …)`. -/
def printMore (d : TstData) (text : List UInt8) : Except Fault TstData := do
  let s ← snprintf d.s d.comLen.toNat (d.sLen - d.comLen).toNat text
  return { d with s, comLen := d.comLen + UInt32.ofNat text.length }

namespace ResponseInfo

/-- `"HTTP/%s %d %s\r\n"`. -/
def statusLine (r : ResponseInfo) : List UInt8 :=
  textHttp ++ r.httpVersion.val ++ 32 :: (printInt r.httpCode ++ 32 :: (r.responseText.val ++ crlf))

/-- The text of the body; NULL is an empty one. -/
def html (r : ResponseInfo) : List UInt8 := r.htmlText.elim [] Subtype.val

end ResponseInfo

/-- `"%s: %s\r\n"`. -/
def ResponseHeader.line (header : ResponseHeader) : List UInt8 :=
  header.name.val ++ 58 :: 32 :: (header.value.val ++ crlf)

/-- `"Content-Length: %u\r\n"`. -/
def lengthLine (n : Nat) : List UInt8 :=
  textContentLength ++ 58 :: 32 :: (numeral (UInt32.ofNat n).toNat ++ crlf)

/-- `"Content-Length: %u\r\n\r\n%s\r\n\r\n"`. -/
def htmlPart (html : List UInt8) : List UInt8 :=
  lengthLine html.length ++ crlf ++ html ++ crlf ++ crlf

/-- The body, and what is printed with it. -/
def printHtml (d : TstData) (html : List UInt8) : Except Fault TstData :=
  if html ≠ [] then printMore d (htmlPart html) else .ok d

/-- `write(sd, s, com_len)`. -/
def writeOut (d : TstData) : Except Fault (TstData × List UInt8) :=
  if d.comLen.toNat ≤ d.s.length then .ok (d, d.s.take d.comLen.toNat) else .error .bounds

/-- `response_http()`: the send buffer afterwards, and the bytes handed to `write()`.
`strrtrim()` does not change the text that it is given. -/
def responseHttp (d : TstData) (r : ResponseInfo) : Except Fault (TstData × List UInt8) := do
  let s ← sprintf d.s 0 r.statusLine
  let d := { d with s, comLen := UInt32.ofNat r.statusLine.length }
  let d ← r.httpHeaders.foldlM (fun d header => printMore d header.line) d
  writeOut (← printHtml d r.html)

namespace ResponseInfo

/-- The status line and the header lines. -/
def head (r : ResponseInfo) : List UInt8 :=
  r.statusLine ++ r.httpHeaders.flatMap ResponseHeader.line

/-- The bytes that are printed. -/
def serialize (r : ResponseInfo) : List UInt8 :=
  r.head ++ if r.html ≠ [] then htmlPart r.html else []

end ResponseInfo

/-- The status line, the header lines, at most one line with a length, an empty line, and as
many bytes as the length says. -/
def Framed (r : ResponseInfo) (bytes : List UInt8) : Prop :=
  ∃ (length : Option Nat) (body : List UInt8), body.length = length.getD 0 ∧
    bytes = r.head ++ length.elim [] (fun n =>
      textContentLength ++ 58 :: 32 :: (numeral n ++ crlf)) ++ crlf ++ body

-- ════════════════════════════════════════════════════════════════════════
-- Printing
-- ════════════════════════════════════════════════════════════════════════

/-- The buffer begins with the text that has been printed, and has room for its NUL. -/
structure Printed (d : TstData) (text : List UInt8) : Prop where
  wf : d.WF
  comLen : d.comLen.toNat = text.length
  room : text.length < d.sLen.toNat
  taken : d.s.take text.length = text

theorem printInt_noNul (n : Int) : 0 ∉ printInt n := by
  have hdigits : 0 ∉ numeral n.natAbs := by
    intro hmem
    exact absurd (isDigit_numeral _ 0 hmem) (by decide)
  rw [printInt]
  split
  · rw [List.mem_cons, not_or]
    exact ⟨by decide, hdigits⟩
  · exact hdigits

section Print

variable {s s' x : List UInt8} {n p : Nat}

/-- A print behind what the buffer begins with, and its NUL. -/
theorem sprintf_eq (text : List UInt8) (hx : s.take x.length = x)
    (h : x.length + text.length < s.length) :
    ∃ r, sprintf s x.length text = .ok (x ++ text ++ 0 :: r) := by
  have hfit : x.length + (text ++ [0]).length ≤ s.length := by
    rw [List.length_append, List.length_singleton]
    exact h
  refine ⟨s.drop (x.length + (text ++ [0]).length), ?_⟩
  rw [sprintf, if_pos h, splice_eq hfit, hx]
  simp

theorem sprintf_lt {text : List UInt8} (h : sprintf s n text = .ok s') :
    n + text.length < s.length := by
  by_contra hout
  rw [sprintf, if_neg hout] at h
  exact absurd h (by simp)

theorem length_sprintf {text : List UInt8} (h : sprintf s n text = .ok s') :
    s'.length = s.length := by
  rw [sprintf, if_pos (sprintf_lt h)] at h
  rw [← Except.ok.inj h, length_splice]

theorem length_snprintf {text : List UInt8} (h : snprintf s p n text = .ok s') :
    s'.length = s.length := by
  rw [snprintf] at h
  split at h
  · rw [Except.ok.inj h]
  · exact length_sprintf h

/-- The buffer begins with what has been printed. -/
theorem sprintf_ok (text : List UInt8) (hx : s.take x.length = x)
    (h : x.length + text.length < s.length) :
    ∃ s', sprintf s x.length text = .ok s' ∧ s'.length = s.length ∧
      s'.take (x ++ text).length = x ++ text := by
  obtain ⟨r, hprint⟩ := sprintf_eq text hx h
  exact ⟨_, hprint, length_sprintf hprint, List.take_left⟩

end Print

theorem Printed.more {d : TstData} {x text : List UInt8} (h : Printed d x)
    (hroom : (x ++ text).length < d.sLen.toNat) :
    ∃ d', printMore d text = .ok d' ∧ Printed d' (x ++ text) ∧ d'.sLen = d.sLen := by
  have hwf : d.sLen.toNat ≤ d.s.length := h.wf
  have hmax := d.sLen.toNat_lt
  have hlen : (x ++ text).length = x.length + text.length := List.length_append
  have hfree : (d.sLen - d.comLen).toNat = d.sLen.toNat - x.length := by
    rw [UInt32.toNat_sub_of_le _ _ (UInt32.le_iff_toNat_le.mpr (by rw [h.comLen]; exact h.room.le)),
      h.comLen]
  have hall : text.take (d.sLen.toNat - x.length - 1) = text :=
    List.take_of_length_le (by omega)
  obtain ⟨s', hs', hlength, htake⟩ := sprintf_ok text h.taken (by omega)
  have hprint : snprintf d.s d.comLen.toNat (d.sLen - d.comLen).toNat text = .ok s' := by
    rw [snprintf, hfree, if_neg (by omega), hall, h.comLen, hs']
  refine ⟨{ d with s := s', comLen := d.comLen + UInt32.ofNat text.length }, ?_, ?_, rfl⟩
  · rw [printMore, hprint]
    rfl
  · refine ⟨hwf.trans hlength.ge, ?_, hroom, htake⟩
    rw [UInt32.toNat_add, UInt32.toNat_ofNat', h.comLen, hlen, Nat.mod_eq_of_lt (by omega),
      Nat.mod_eq_of_lt (by omega)]

/-- The loop over the headers. -/
theorem Printed.headers {d : TstData} {x : List UInt8} (h : Printed d x)
    (headers : List ResponseHeader)
    (hroom : (x ++ headers.flatMap ResponseHeader.line).length < d.sLen.toNat) :
    ∃ d', headers.foldlM (fun d header => printMore d header.line) d = .ok d' ∧
      Printed d' (x ++ headers.flatMap ResponseHeader.line) ∧ d'.sLen = d.sLen := by
  induction headers generalizing d x with
  | nil => exact ⟨d, rfl, by rwa [List.flatMap_nil, List.append_nil], rfl⟩
  | cons header headers ih =>
    rw [List.flatMap_cons, ← List.append_assoc] at hroom ⊢
    have hfirst : (x ++ header.line).length < d.sLen.toNat := by
      rw [List.length_append] at hroom
      omega
    obtain ⟨d₁, hd₁, hprinted, hsLen⟩ := h.more hfirst
    obtain ⟨d', hd', hprinted', hsLen'⟩ := ih hprinted (hsLen ▸ hroom)
    refine ⟨d', ?_, hprinted', hsLen'.trans hsLen⟩
    rw [List.foldlM_cons, hd₁]
    exact hd'

/-- The body. -/
theorem Printed.html {d : TstData} {r : ResponseInfo} (h : Printed d r.head)
    (hroom : r.serialize.length < d.sLen.toNat) :
    ∃ d', printHtml d r.html = .ok d' ∧ Printed d' r.serialize := by
  rw [ResponseInfo.serialize] at hroom ⊢
  by_cases hhtml : r.html ≠ []
  · rw [if_pos hhtml] at hroom ⊢
    obtain ⟨d', hd', hprinted, -⟩ := h.more hroom
    exact ⟨d', (if_pos hhtml).trans hd', hprinted⟩
  · rw [if_neg hhtml, List.append_nil]
    exact ⟨d, if_neg hhtml, h⟩

/-- A response that fits is written as it is printed. -/
theorem responseHttp_serialize {d : TstData} (r : ResponseInfo) (hwf : d.WF)
    (hfit : r.serialize.length < d.sLen.toNat) :
    ∃ d', responseHttp d r = .ok (d', r.serialize) := by
  have hroom : r.serialize.length < d.sLen.toNat := hfit
  have hwf' : d.sLen.toNat ≤ d.s.length := hwf
  have hmax := d.sLen.toNat_lt
  rw [ResponseInfo.serialize, List.length_append] at hfit
  have hhead : r.head.length < d.sLen.toNat := by omega
  have hstatus : r.statusLine.length < d.sLen.toNat := by
    rw [ResponseInfo.head, List.length_append] at hhead
    omega
  obtain ⟨s, hs, hlength, htake⟩ :=
    sprintf_ok (s := d.s) (x := []) r.statusLine rfl (by simp; omega)
  have hline : Printed { d with s, comLen := UInt32.ofNat r.statusLine.length } r.statusLine := by
    refine ⟨hwf'.trans hlength.ge, ?_, hstatus, htake⟩
    rw [UInt32.toNat_ofNat', Nat.mod_eq_of_lt (by omega)]
  obtain ⟨d₁, hd₁, hprinted, hsLen⟩ := hline.headers r.httpHeaders hhead
  obtain ⟨d₂, hd₂, hprinted₂⟩ := hprinted.html (hsLen ▸ hroom)
  have hwf₂ : d₂.sLen.toNat ≤ d₂.s.length := hprinted₂.wf
  have hin : d₂.comLen.toNat ≤ d₂.s.length := by
    rw [hprinted₂.comLen]
    exact hprinted₂.room.le.trans hwf₂
  have hout : writeOut d₂ = .ok (d₂, r.serialize) := by
    rw [writeOut, if_pos hin, hprinted₂.comLen, hprinted₂.taken]
  refine ⟨d₂, ?_⟩
  rw [responseHttp, show sprintf d.s 0 r.statusLine = .ok s from hs, ok_bind]
  simp only [hd₁, ok_bind, hd₂, hout]

-- ════════════════════════════════════════════════════════════════════════
-- Framing
-- ════════════════════════════════════════════════════════════════════════

/-- Without a body the empty line is missing. -/
theorem serialize_of_noBody {r : ResponseInfo} (h : r.html = []) : r.serialize = r.head := by
  rw [ResponseInfo.serialize, if_neg (not_not_intro h), List.append_nil]

/-- A response without a body is not framed. -/
theorem not_framed_of_noBody {r : ResponseInfo} (h : r.html = []) : ¬ Framed r r.serialize := by
  rintro ⟨length, body, -, hbytes⟩
  have hlen := congrArg List.length hbytes
  rw [serialize_of_noBody h] at hlen
  simp only [List.length_append, crlf, List.length_cons, List.length_nil] at hlen
  omega

/-- A response with a body is not framed: there are more bytes than its length states. -/
theorem not_framed_of_body {r : ResponseInfo} (h : r.html ≠ []) (hfit : r.html.length < 2 ^ 32) :
    ¬ Framed r r.serialize := by
  rintro ⟨length, body, hbody, hbytes⟩
  rw [ResponseInfo.serialize, if_pos h, List.append_assoc, List.append_assoc] at hbytes
  have hpart := List.append_cancel_left hbytes
  cases length with
  | none =>
    -- the empty line is not a length line
    have hfirst := congrArg List.head? hpart
    exact absurd hfirst (by simp [htmlPart, lengthLine, textContentLength, crlf])
  | some n =>
    simp only [htmlPart, lengthLine, Option.elim_some, List.append_assoc, List.cons_append] at hpart
    have hafter := List.append_cancel_left hpart
    obtain ⟨hn, hrest⟩ := numeral_append_inj (b := 13) rfl
      (List.cons.inj (List.cons.inj hafter).2).2
    have htail : r.html ++ (crlf ++ crlf) = body :=
      List.append_cancel_left (List.cons.inj hrest).2
    have hlen := congrArg List.length htail
    rw [UInt32.toNat_ofNat', Nat.mod_eq_of_lt hfit] at hn
    rw [Option.getD_some] at hbody
    simp only [List.length_append, crlf, List.length_cons, List.length_nil] at hlen
    omega

/-- No response that fits is written as a framed message. -/
theorem response_not_framed (d : TstData) (r : ResponseInfo) (hwf : d.WF)
    (hfit : r.serialize.length < d.sLen.toNat) :
    ∃ d' bytes, responseHttp d r = .ok (d', bytes) ∧ ¬ Framed r bytes := by
  obtain ⟨d', hd'⟩ := responseHttp_serialize r hwf hfit
  refine ⟨d', r.serialize, hd', ?_⟩
  by_cases h : r.html = []
  · exact not_framed_of_noBody h
  · have hmax := d.sLen.toNat_lt
    have hhtml : r.html.length < r.serialize.length := by
      rw [ResponseInfo.serialize, if_pos h]
      simp only [htmlPart, List.length_append, crlf, List.length_cons, List.length_nil]
      omega
    exact not_framed_of_body h (by omega)

theorem ok_noNul : (0 : UInt8) ∉ ([79, 75] : List UInt8) := by decide

theorem text11_noNul : 0 ∉ text11 := by decide

/-- What `http_alive()` answers when all is well. -/
def aliveOk : ResponseInfo where
  httpVersion := ⟨text11, text11_noNul⟩
  httpCode := 200
  responseText := ⟨[79, 75], ok_noNul⟩
  headersOk := Nat.zero_le _

theorem response_not_framed_alive : ∃ d' bytes,
    responseHttp (.alloc 64) aliveOk = .ok (d', bytes) ∧ ¬ Framed aliveOk bytes :=
  response_not_framed _ _ (TstData.alloc_wf 64) (by decide)

/-- It is `HTTP/1.1 200 OK` and a line end. -/
theorem alive_not_framed : ∃ d', responseHttp (.alloc 64) aliveOk = .ok (d',
      [72, 84, 84, 80, 47, 49, 46, 49, 32, 50, 48, 48, 32, 79, 75, 13, 10]) ∧
    ¬ Framed aliveOk [72, 84, 84, 80, 47, 49, 46, 49, 32, 50, 48, 48, 32, 79, 75, 13, 10] :=
  ⟨_, rfl, not_framed_of_noBody rfl⟩

end Tst
