import Tst.Data
import Tst.Lib.CString

/-!
# HTTP requests

The part of `http()` that works on a complete header block: the parser, which cuts the
block into strings in place, and what is done with the request. A pointer is an index into
`rdata.s`; an access outside `s[0 .. s_len)` is a fault.

## Main definitions

- `requestLine`, `parseHeaders`, `splitUri`, `urlDecodeRewite` — the parts of the parser
- `parseRequest` — the parser
- `httpMessage` — the block of a new request
-/

namespace Tst

open CString

/-- `HTTP_HEADER`. -/
structure HttpHeader where
  name : Nat
  value : Option Nat
  deriving DecidableEq, Repr

/-- `HTTP_MAX_HEADERS`. -/
def httpMaxHeaders : Nat := 30

/-- `REQUEST_INFO`. -/
structure RequestInfo where
  requestMethod : Option Nat := none
  requestUri : Option Nat := none
  queryString : Option Nat := none
  httpVersion : Option Nat := none
  bodyString : Nat := 0
  httpHeaders : List HttpHeader := []
  deriving DecidableEq, Repr

/-- Texts of the source. -/
def textHttp : List UInt8 := [72, 84, 84, 80, 47]
def text10 : List UInt8 := [49, 46, 48]
def text11 : List UInt8 := [49, 46, 49]
def textContentLength : List UInt8 :=
  [67, 111, 110, 116, 101, 110, 116, 45, 76, 101, 110, 103, 116, 104]
def textConnection : List UInt8 := [67, 111, 110, 110, 101, 99, 116, 105, 111, 110]
def textUpgrade : List UInt8 := [85, 112, 103, 114, 97, 100, 101]
def textWebsocket : List UInt8 := [119, 101, 98, 115, 111, 99, 107, 101, 116]
def textSecWebSocketKey : List UInt8 :=
  [83, 101, 99, 45, 87, 101, 98, 83, 111, 99, 107, 101, 116, 45, 75, 101, 121]
def textOptions : List UInt8 := [79, 80, 84, 73, 79, 78, 83]
def textGet : List UInt8 := [71, 69, 84]
def textPost : List UInt8 := [80, 79, 83, 84]
def textFavicon : List UInt8 := [47, 102, 97, 118, 105, 99, 111, 110, 46, 105, 99, 111]

/-- `!memcmp(s + i, text, strlen(text))`. -/
def equalAt (s : List UInt8) (i : Nat) (text : List UInt8) : Except Fault Bool :=
  if i + text.length ≤ s.length then .ok (Bytes.window s i text.length = text)
  else .error .bounds

/-- The state of the parser: the buffer, `url`, the request, and whether its version is one
that is not supported. -/
structure Parse where
  s : List UInt8
  url : Nat
  req : RequestInfo
  unsupported : Bool := false
  deriving DecidableEq

/-- The version that begins at `src` is one that is supported. -/
def versionSupported (s : List UInt8) (src : Nat) : Except Fault Bool := do
  if !(← equalAt s src textHttp) then return false
  if ← equalAt s (src + 5) text10 then return true
  equalAt s (src + 5) text11

/-- The loop over the request line, from the second space on. With nothing behind it
`http_version` stays NULL. -/
def requestVersion (s : List UInt8) (src : Nat) (req : RequestInfo) : Except Fault Parse := do
  if (← load s src) = 0 then return ⟨s, src, req, false⟩
  if !(← versionSupported s src) then return ⟨s, src, req, true⟩
  let s ← store s (src + 8) 0
  let url ← find s (· = 10) (src + 8)
  return ⟨s, url + 1, { req with httpVersion := some (src + 5) }, false⟩

/-- The loop over the request line, from the first space on. Without another one
`request_uri` stays NULL. -/
def requestTarget (s : List UInt8) (src : Nat) (req : RequestInfo) : Except Fault Parse := do
  let url ← find s (stopAt 32) src
  if (← load s url) = 32 then
    let s ← store s url 0
    requestVersion s (url + 1) { req with requestUri := some src }
  else return ⟨s, url, req, false⟩

/-- The loop over the request line. Without a space `request_method` stays NULL. -/
def requestLine (s : List UInt8) (body : Nat) : Except Fault Parse := do
  let req : RequestInfo := { bodyString := body }
  let url ← find s (stopAt 32) 0
  if (← load s url) = 32 then
    let s ← store s url 0
    requestTarget s (url + 1) { req with requestMethod := some 0 }
  else return ⟨s, url, req, false⟩

/-- The value of the header line that begins at `src`, if there is a `:` after its first
byte. The byte after the `:` is overwritten. -/
def headerValue (s : List UInt8) (src : Nat) : Except Fault (List UInt8 × Option Nat) := do
  let src ← skipTo 58 s src
  if (← load s src) = 58 then
    let s ← store s src 0
    let s ← store s (src + 1) 0
    return (s, some (src + 2))
  else return (s, none)

/-- The loop over the header lines; `src` and `url` are the same at its start. -/
def parseHeaders : Nat → List UInt8 → Nat → List HttpHeader →
    Except Fault (List UInt8 × List HttpHeader)
  | 0, _, _, _ => .error .endless
  | fuel + 1, s, src, headers => do
    if (← load s src) = 0 then return (s, headers)
    let url ← skipTo 13 s src
    if (← load s url) = 13 then
      let s ← store s url 0
      let s ← store s (url + 1) 0
      if headers.length < httpMaxHeaders then
        let (s, value) ← headerValue s src
        parseHeaders fuel s (url + 2) (headers ++ [⟨src, value⟩])
      else .error .table
    else return (s, headers)

/-- The loop that looks for the query. It goes on behind the NUL that ends a URI without
`?`, up to two NULs in a row. -/
def splitUri : Nat → List UInt8 → Nat → Option Nat → Except Fault (List UInt8 × Option Nat)
  | 0, _, _, _ => .error .endless
  | fuel + 1, s, url, query => do
    if (← load s url) = 0 then return (s, query)
    let url ← find s (stopAt 63) url
    if (← load s url) = 63 then
      let s ← store s url 0
      return (s, some (url + 1))
    else splitUri fuel s (url + 1) (some url)

/-- `isxdigit`. -/
def isxdigit (b : UInt8) : Bool :=
  (48 ≤ b && b ≤ 57) || (65 ≤ b && b ≤ 70) || (97 ≤ b && b ≤ 102)

/-- The value of a hexadecimal digit. -/
def hexDigit (b : UInt8) : UInt8 := if b ≤ 57 then b - 48 else if b ≤ 70 then b - 55 else b - 87

/-- The loop of `urlDecodeRewite` on the bytes of a string, with its two counters. A `%`
that is not followed by two digits leaves the byte at the write position as it is. -/
def urlDecodeLoop : Nat → List UInt8 → Nat → Nat → List UInt8 × Nat
  | 0, s, _, j => (s, j)
  | fuel + 1, s, i, j =>
    match s[i]? with
    | none => (s, j)
    | some b =>
      if b = 37 then
        match s[i + 1]?, s[i + 2]? with
        | some x, some y =>
          if isxdigit x && isxdigit y then
            urlDecodeLoop fuel (s.set j (hexDigit x * 16 + hexDigit y)) (i + 3) (j + 1)
          else urlDecodeLoop fuel s (i + 1) (j + 1)
        | _, _ => (s, j)
      else urlDecodeLoop fuel (if j < i then s.set j b else s) (i + 1) (j + 1)

/-- What `urlDecodeRewite` makes of the bytes of a string; the NUL that it writes is among
them when the string gets shorter. -/
def urlDecode (s : List UInt8) : List UInt8 :=
  let (s', j) := urlDecodeLoop (s.length + 1) s 0 0
  s'.set j 0

/-- `urlDecodeRewite`. -/
def urlDecodeRewite (s : List UInt8) (p : Nat) : Except Fault (List UInt8) := do
  let e ← find s (· = 0) p
  return s.take p ++ urlDecode (Bytes.window s p (e - p)) ++ s.drop e

/-- `if (p && *p) urlDecodeRewite(p)`. -/
def decodeAt (s : List UInt8) : Option Nat → Except Fault (List UInt8)
  | none => .ok s
  | some p => do
    if (← load s p) = 0 then return s
    urlDecodeRewite s p

/-- The query is cut off, and the URI and the query are decoded. -/
def decodeTarget (s : List UInt8) (uri : Nat) : Except Fault (List UInt8 × Option Nat) := do
  let (s, query) ← splitUri (s.length + 1) s uri none
  let s ← decodeAt s (some uri)
  let s ← decodeAt s query
  return (s, query)

/-- `get_httpheader`: the value, as a string or NULL, of the first header of that name, or
the empty string. -/
def getHttpheader (s : List UInt8) : List HttpHeader → List UInt8 →
    Except Fault (Option (List UInt8))
  | [], _ => .ok (some [])
  | header :: headers, headerName => do
    if (← str s header.name) = headerName then
      match header.value with
      | none => return none
      | some value => return some (← str s value)
    else getHttpheader s headers headerName

/-- `isspace`. -/
def isspace (b : UInt8) : Bool := b = 32 || (9 ≤ b && b ≤ 13)

/-- `isdigit`. -/
def isdigit (b : UInt8) : Bool := 48 ≤ b && b ≤ 57

/-- The number that a row of digits stands for. -/
def decimal (s : List UInt8) : Nat :=
  (s.takeWhile isdigit).foldl (fun n b => n * 10 + (b.toNat - 48)) 0

/-- `strtol(s, NULL, 10)`: at the ends of the range of `long` it stays there. -/
def strtol (s : List UInt8) : Int :=
  match s.dropWhile isspace with
  | 45 :: s => max (-decimal s) (-2 ^ 63)
  | 43 :: s => min (decimal s) (2 ^ 63 - 1)
  | s => min (decimal s) (2 ^ 63 - 1)

/-- `atoi`, as `(int)strtol(s, NULL, 10)`. -/
def atoi (s : List UInt8) : Int := Int.bmod (strtol s) (2 ^ 32)

/-- What `http()` does with a request. -/
inductive HttpOutcome
  /-- a response with that code and no call of a route -/
  | respond (code : Nat)
  /-- the body is left to the worker -/
  | body
  /-- the connection becomes a WebSocket; the version and the key are in the answer -/
  | upgrade (version key : List UInt8)
  /-- the route of that URI is called -/
  | route (uri : List UInt8)
  deriving DecidableEq, Repr

/-- The receive buffer and the `REQUEST_INFO` when `http()` returns, or calls a route or
`websocket()`. -/
structure HttpResult where
  recv : TstData
  req : RequestInfo
  outcome : HttpOutcome
  deriving DecidableEq

/-- The parser, on a buffer whose header block is closed by a NUL. -/
def parseRequest (s : List UInt8) (body : Nat) : Except Fault Parse := do
  let p ← requestLine s body
  if p.unsupported then return p
  let (s, headers) ← parseHeaders (p.s.length + 1) p.s p.url []
  let (s, query) ← decodeTarget s (← deref p.req.requestUri)
  return { p with s, req := { p.req with httpHeaders := headers, queryString := query } }

/-- `Content-Length`, as `http()` takes it. -/
def contentLength (s : List UInt8) (req : RequestInfo) : Except Fault Int := do
  return atoi (← deref (← getHttpheader s req.httpHeaders textContentLength))

/-- The key of a request for an upgrade. -/
def upgradeKey (s : List UInt8) (req : RequestInfo) : Except Fault (Option (List UInt8)) := do
  if (← str s (← deref req.requestMethod)) = textOptions then return none
  let connection ← deref (← getHttpheader s req.httpHeaders textConnection)
  if connection ≠ textUpgrade then return none
  let upgrade ← deref (← getHttpheader s req.httpHeaders connection)
  if upgrade ≠ textWebsocket then return none
  return some (← deref (← getHttpheader s req.httpHeaders textSecWebSocketKey))

/-- The method and route checks; `routes` are the names in `g_route`. -/
def checkRoute (s : List UInt8) (req : RequestInfo) (routes : List (List UInt8)) :
    Except Fault HttpOutcome := do
  let method ← str s (← deref req.requestMethod)
  if method = textGet ∨ method = textPost then
    let uri ← str s (← deref req.requestUri)
    if uri ∈ routes then return .route uri
    else if uri = textFavicon then return .respond 404
    else return .respond 501
  else return .respond 501

/-- The part of `http()` after a complete request. -/
def httpRequest (d : TstData) (req : RequestInfo) (routes : List (List UInt8)) :
    Except Fault HttpResult := do
  match ← upgradeKey d.s req with
  | some key =>
    let version ← str d.s (← deref req.httpVersion)
    return ⟨d, req, .upgrade version key⟩
  | none => return ⟨d, req, ← checkRoute d.s req routes⟩

/-- `Content-Length` is more than what `http()` takes to be free. -/
def tooLarge (d : TstData) (length : Int) : Prop :=
  length > Int.bmod ((d.sLen - d.comLen).toNat) (2 ^ 32)

instance (d : TstData) (length : Int) : Decidable (tooLarge d length) :=
  inferInstanceAs (Decidable (_ > _))

/-- The body of `length` bytes is left to the worker. -/
def armBody (d : TstData) (length : Int) : TstData :=
  { d with reqPos := d.comLen, comLen := 0, reqLen := UInt32.ofInt length }

/-- `s[req_pos + com_len] = 0`. -/
def closeMessage (d : TstData) : Except Fault TstData := do
  return { d with s := ← store d.s (d.reqPos + d.comLen).toNat 0 }

/-- `http()` on a buffer that holds the header block of a new request. -/
def httpMessage (d : TstData) (routes : List (List UInt8)) : Except Fault HttpResult := do
  let d ← closeMessage d
  let p ← parseRequest d.s d.comLen.toNat
  let d := { d with s := p.s }
  if p.unsupported then return ⟨d, p.req, .respond 505⟩
  let length ← contentLength d.s p.req
  if length = 0 then httpRequest d p.req routes
  else if tooLarge d length then return ⟨d, p.req, .respond 413⟩
  else return ⟨armBody d length, p.req, .body⟩

/-- `http()` when the worker has fetched the body of a request. -/
def httpBody (d : TstData) (req : RequestInfo) (routes : List (List UInt8)) :
    Except Fault HttpResult := do
  httpRequest (← closeMessage d) req routes

end Tst
