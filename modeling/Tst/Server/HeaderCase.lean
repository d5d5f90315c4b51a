import Mathlib.Data.Bool.AllAny
import Tst.Http.WellFormed
import Tst.Server.KeepAlive

/-!
# The letter case of header names

HTTP compares header names without regard to case, and `get_httpheader()` compares them byte for
byte. What `http()` decides about a request goes through that lookup: how long its body is,
whether it is an upgrade, and so where the next request of the connection begins.

## Main definitions

- `HeaderField.SameButCase` — two header lines that HTTP does not tell apart
- `decisions`, `SameDecisions` — what `http()` decides about a request, and about two
- `lengthPlan`, `upgradeAsked` — what the headers say, as they are spelled

## Main results

- `decisions_block` — the decisions, by what the lookups find
- `header_case_iff` — when two requests that differ in the case of header names get the same
  decisions
-/

namespace Tst

open Bytes CString

/-- A letter in lower case. -/
def lowerByte (b : UInt8) : UInt8 := if 65 ≤ b ∧ b ≤ 90 then b + 32 else b

/-- The names differ at most in the case of their letters. -/
structure HeaderField.SameButCase (f g : HeaderField) : Prop where
  name : f.name.map lowerByte = g.name.map lowerByte
  value : f.value = g.value

/-- What is decided about a request: the length of the body that is armed, the outcome when the
body is there, and the query and the body that a route gets. -/
structure HttpDecision where
  armed : UInt32
  outcome : HttpOutcome
  strings : Option (List UInt8 × List UInt8)

/-- The query and the body of a call of a route. -/
def HttpResult.strings (r : HttpResult) : Except Fault (Option (List UInt8 × List UInt8)) :=
  match r.outcome with
  | .route _ => do
    let query ← str r.recv.s (← deref r.req.queryString)
    let body ← str r.recv.s r.req.bodyString
    return some (query, body)
  | _ => .ok none

/-- What `http()` decides about a request with the header block `h`; `stream` is what follows
the block on the connection. A body that does not fit is stored out of the buffer. -/
def decisions (sLen : UInt32) (routes : List (List UInt8)) (h stream : List UInt8) :
    Except Fault HttpDecision := do
  let r ← httpMessage (holding sLen h) routes
  if r.outcome = .body then
    if r.recv.reqPos.toNat + r.recv.reqLen.toNat < sLen.toNat then
      if stream.length < r.recv.reqLen.toNat then return ⟨r.recv.reqLen, .body, none⟩
      else
        let b ← httpBody (withBody r.recv (stream.take r.recv.reqLen.toNat) 0) r.req routes
        return ⟨r.recv.reqLen, b.outcome, ← b.strings⟩
    else .error .bounds
  else return ⟨0, r.outcome, ← r.strings⟩

/-- Two header blocks get the same decisions, whatever follows them on the connection. The next
request begins at the same place for both. -/
def SameDecisions (sLen : UInt32) (routes : List (List UInt8)) (h h' : List UInt8) : Prop :=
  ∀ stream, decisions sLen routes h stream = decisions sLen routes h' stream

-- ════════════════════════════════════════════════════════════════════════
-- What the headers say
-- ════════════════════════════════════════════════════════════════════════

/-- The value of the first header that is spelled so, or the empty string. -/
def spelled (fs : List HeaderField) (name : List UInt8) : List UInt8 :=
  ((fs.find? (·.name = name)).map fun f => f.value.drop 1).getD []

/-- What becomes of an announced length: the body is refused, it goes out of the buffer, or it
is taken. -/
inductive LengthPlan
  | refused | outside
  | taken (length : Int)
  deriving DecidableEq

/-- The plan for a block of `n` bytes whose `Content-Length` says `length`. -/
def planLength (sLen : UInt32) (n : Nat) (length : Int) : LengthPlan :=
  if length = 0 then .taken 0
  else if length > Int.bmod (sLen - UInt32.ofNat n).toNat (2 ^ 32) then .refused
  else if n + (UInt32.ofInt length).toNat < sLen.toNat then .taken length
  else .outside

/-- The plan for a request with these headers. -/
def lengthPlan (sLen : UInt32) (head : RequestHead) (fs : List HeaderField) : LengthPlan :=
  planLength sLen (head.block fs).length (atoi (spelled fs textContentLength))

/-- The key of a request that asks for an upgrade. -/
def upgradeAsked (method : List UInt8) (fs : List HeaderField) : Option (List UInt8) :=
  if method ≠ textOptions ∧ spelled fs textConnection = textUpgrade ∧
      spelled fs textUpgrade = textWebsocket then
    some (spelled fs textSecWebSocketKey)
  else none

/-- The method and route checks. -/
def routeOutcome (routes : List (List UInt8)) (method uri : List UInt8) : HttpOutcome :=
  if method = textGet ∨ method = textPost then
    if routes.contains uri then .route uri
    else if uri = textFavicon then .respond 404
    else .respond 501
  else .respond 501

namespace RequestHead

/-- What is done with a request whose body is there. -/
def outcome (head : RequestHead) (routes : List (List UInt8)) :
    Option (List UInt8) → HttpOutcome
  | some key => .upgrade head.version key
  | none => routeOutcome routes head.method (uriText head.target)

/-- The strings of the call, if it comes to one. -/
def callStrings (head : RequestHead) (body : List UInt8) :
    HttpOutcome → Option (List UInt8 × List UInt8)
  | .route _ => some (targetQuery head.target, body)
  | _ => none

/-- The decisions, by the plan for the body and the key. -/
def decided (head : RequestHead) (routes : List (List UInt8)) (plan : LengthPlan)
    (key : Option (List UInt8)) (stream : List UInt8) : Except Fault HttpDecision :=
  match plan with
  | .refused => .ok ⟨0, .respond 413, none⟩
  | .outside => .error .bounds
  | .taken length =>
    let armed := UInt32.ofInt length
    if stream.length < armed.toNat then .ok ⟨armed, .body, none⟩
    else .ok ⟨armed, head.outcome routes key,
      head.callStrings (cstr (stream.take armed.toNat)) (head.outcome routes key)⟩

end RequestHead

-- ════════════════════════════════════════════════════════════════════════
-- A request whose body is there
-- ════════════════════════════════════════════════════════════════════════

section Request

variable {head : RequestHead} {f : HeaderField} {fs : List HeaderField} {d : TstData} {body : Nat}
  {r : List UInt8} {routes : List (List UInt8)}

theorem lookup_spelled (fs : List HeaderField) (name : List UInt8) :
    lookup (fs.map HeaderField.field) name = some (spelled fs name) := by
  induction fs with
  | nil => rfl
  | cons f fs ih =>
    rw [lookup, spelled] at *
    by_cases hname : f.name = name
    · rw [List.map_cons, List.find?_cons_of_pos (by simpa [HeaderField.field] using hname),
        List.find?_cons_of_pos (by simpa using hname)]
      rfl
    · rw [List.map_cons, List.find?_cons_of_neg (by simpa [HeaderField.field] using hname),
        List.find?_cons_of_neg (by simpa using hname)]
      exact ih

theorem upgradeKey_parsed (head : RequestHead) (f : HeaderField) (fs : List HeaderField)
    (body : Nat) (r : List UInt8) :
    upgradeKey (head.parsed f fs body r).s (head.parsed f fs body r).req =
      .ok (upgradeAsked head.method (f :: fs)) := by
  rw [upgradeKey_lookup (parsed_denotes head f fs body r), lookup_spelled, lookup_spelled,
    lookup_spelled, upgradeAsked]
  simp only [deref, ok_bind]
  by_cases hoptions : head.method = textOptions
  · rw [if_pos hoptions, if_neg fun h => h.1 hoptions]
  · rw [if_neg hoptions]
    by_cases hconnection : spelled (f :: fs) textConnection = textUpgrade
    · rw [if_neg (not_not.mpr hconnection)]
      by_cases hupgrade : spelled (f :: fs) textUpgrade = textWebsocket
      · rw [if_neg (not_not.mpr hupgrade), if_pos ⟨hoptions, hconnection, hupgrade⟩]
        rfl
      · rw [if_pos hupgrade, if_neg fun h => hupgrade h.2.2]
    · rw [if_pos hconnection, if_neg fun h => hconnection h.2.1]

theorem checkRoute_parsed (head : RequestHead) (f : HeaderField) (fs : List HeaderField)
    (body : Nat) (r : List UInt8) (routes : List (List UInt8)) :
    checkRoute (head.parsed f fs body r).s (head.parsed f fs body r).req routes =
      .ok (routeOutcome routes head.method (uriText head.target)) := by
  obtain ⟨i, hi, hmethod⟩ := (parsed_denotes head f fs body r).method
  obtain ⟨j, hj, huri⟩ := (parsed_strings head f fs body r).uri
  rw [checkRoute, hi, hj]
  simp only [deref, ok_bind, hmethod, huri, routeOutcome, List.contains_iff_mem]
  split
  · split
    · rfl
    · split
      · rfl
      · rfl
  · rfl

theorem httpRequest_parsed (hd : d.s = (head.parsed f fs body r).s) :
    httpRequest d (head.parsed f fs body r).req routes =
      .ok ⟨d, (head.parsed f fs body r).req,
        head.outcome routes (upgradeAsked head.method (f :: fs))⟩ := by
  rw [httpRequest, hd, upgradeKey_parsed, ok_bind]
  cases upgradeAsked head.method (f :: fs) with
  | some key =>
    obtain ⟨i, hi, hversion⟩ := (parsed_strings head f fs body r).version
    simp only [hi, deref, ok_bind, hversion]
    rfl
  | none =>
    simp only [checkRoute_parsed, ok_bind]
    rfl

/-- Without an upgrade the request goes to a route, or it is answered with an error. -/
theorem outcome_none_cases (head : RequestHead) (routes : List (List UInt8)) :
    (∃ uri, head.outcome routes none = .route uri) ∨
      ∃ code, code ≠ 413 ∧ head.outcome routes none = .respond code := by
  rw [RequestHead.outcome, routeOutcome]
  split
  · split
    · exact .inl ⟨_, rfl⟩
    · split
      · exact .inr ⟨404, by decide, rfl⟩
      · exact .inr ⟨501, by decide, rfl⟩
  · exact .inr ⟨501, by decide, rfl⟩

theorem outcome_ne_body (head : RequestHead) (routes : List (List UInt8))
    (key : Option (List UInt8)) : head.outcome routes key ≠ .body := by
  cases key with
  | some key => simp [RequestHead.outcome]
  | none =>
    obtain ⟨uri, h⟩ | ⟨code, -, h⟩ := outcome_none_cases head routes
    · simp [h]
    · simp [h]

theorem strings_parsed {text : List UInt8} (outcome : HttpOutcome)
    (hd : d.s = (head.parsed f fs body r).s) (hbody : str d.s body = .ok text) :
    HttpResult.strings ⟨d, (head.parsed f fs body r).req, outcome⟩ =
      .ok (head.callStrings text outcome) := by
  cases outcome with
  | route uri =>
    obtain ⟨i, hi, hquery⟩ := (parsed_strings head f fs body r).query
    have hstr : str d.s (head.parsed f fs body r).req.bodyString = .ok text := hbody
    simp only [HttpResult.strings, hi, deref, ok_bind, hd, hquery]
    rw [← hd, hstr]
    rfl
  | respond code => rfl
  | body => rfl
  | upgrade version key => rfl

end Request

-- ════════════════════════════════════════════════════════════════════════
-- The decisions
-- ════════════════════════════════════════════════════════════════════════

section Decisions

variable {head : RequestHead} {f : HeaderField} {fs : List HeaderField} {sLen : UInt32}
  {routes : List (List UInt8)} {stream : List UInt8}

/-- The header lines keep their length. -/
theorem length_layout_lines (fs : List HeaderField) :
    (layout (fs.map HeaderField.line)).length = (fieldLines fs).length := by
  induction fs with
  | nil => rfl
  | cons f fs ih =>
    rw [fieldLines, joinLines] at ih
    rw [List.map_cons, layout_cons, fieldLines, joinLines, List.map_cons, List.flatMap_cons,
      List.length_append, List.length_append, (isLine_line f).length_marked, ih]
    simp only [List.length_append, List.length_cons, List.length_nil]

/-- The buffer up to the end of the block. -/
theorem parsed_front (head : RequestHead) (f : HeaderField) (fs : List HeaderField) (body : Nat) :
    ∃ a : List UInt8, a.length = (head.block (f :: fs)).length ∧
      ∀ r, (head.parsed f fs body ([13, 10] ++ r)).s = a ++ r := by
  refine ⟨cutLine head.method (decodedTarget head.target) head.version [] ++
    (layout ((f :: fs).map HeaderField.line) ++ [13, 10]), ?_, fun r => ?_⟩
  · rw [List.length_append, List.length_append, length_layout_lines, RequestHead.block]
    simp only [cutLine, List.length_append, List.length_cons, List.length_nil, length_decodedTarget]
    omega
  · simp [RequestHead.parsed]

/-- The buffer with a body behind the block, and the NUL behind the body. -/
theorem closeMessage_body {d : TstData} {a y z : List UInt8} (hs : d.s = a ++ z)
    (hpos : d.reqPos.toNat = a.length) (hroom : a.length + y.length < d.s.length)
    (hlt : d.s.length < 2 ^ 32) :
    ∃ z', closeMessage (withBody d y 0) = .ok { withBody d y 0 with s := a ++ (y ++ 0 :: z') } := by
  have hlen := congrArg List.length hs
  rw [List.length_append] at hlen
  have hsplit : (withBody d y 0).s = (a ++ y) ++ z.drop y.length := by
    change splice d.s d.reqPos.toNat y = _
    rw [splice_eq (by omega), hpos, hs, List.take_left, ← List.drop_drop, List.drop_left]
  obtain ⟨b, z', hz⟩ : ∃ b z', z.drop y.length = b :: z' := by
    refine List.exists_cons_of_ne_nil fun hnil => ?_
    have hle := List.drop_eq_nil_iff.mp hnil
    omega
  have hend : ((withBody d y 0).reqPos + (withBody d y 0).comLen).toNat = (a ++ y).length := by
    change (d.reqPos + UInt32.ofNat y.length).toNat = _
    rw [UInt32.toNat_add, hpos, UInt32.toNat_ofNat', List.length_append]
    omega
  rw [hz] at hsplit
  rw [closeMessage, store_at hsplit hend]
  exact ⟨z', by rw [List.append_assoc]; rfl⟩

/-- What the parser leaves of a block in a receive buffer. -/
def RequestHead.parsedIn (head : RequestHead) (f : HeaderField) (fs : List HeaderField)
    (sLen : UInt32) : Parse :=
  head.parsed f fs (head.block (f :: fs)).length
    ([13, 10] ++ 0 :: behind sLen (head.block (f :: fs)))

/-- The receive buffer behind the parser. -/
def RequestHead.bufferIn (head : RequestHead) (f : HeaderField) (fs : List HeaderField)
    (sLen : UInt32) : TstData :=
  { holding sLen (head.block (f :: fs)) with s := (head.parsedIn f fs sLen).s }

/-- `http()` on the block. -/
theorem httpMessage_block (hlen : (head.block (f :: fs)).length < sLen.toNat)
    (hlines : (f :: fs).length ≤ httpMaxHeaders) :
    httpMessage (holding sLen (head.block (f :: fs))) routes =
      let length := atoi (spelled (f :: fs) textContentLength)
      let d := head.bufferIn f fs sLen
      let req := (head.parsedIn f fs sLen).req
      if length = 0 then
        .ok ⟨d, req, head.outcome routes (upgradeAsked head.method (f :: fs))⟩
      else if tooLarge d length then .ok ⟨d, req, .respond 413⟩
      else .ok ⟨armBody d length, req, .body⟩ := by
  have hzero : ∀ b ∈ behind sLen (head.block (f :: fs)), b = 0 := fun b hb =>
    List.eq_of_mem_replicate hb
  have hparse : parseRequest (head.block (f :: fs) ++ 0 :: behind sLen (head.block (f :: fs)))
      (head.block (f :: fs)).length = .ok (head.parsedIn f fs sLen) :=
    parse_block _ hlines hzero
  have hlength : contentLength (head.parsedIn f fs sLen).s (head.parsedIn f fs sLen).req =
      .ok (atoi (spelled (f :: fs) textContentLength)) := by
    rw [RequestHead.parsedIn, contentLength_lookup (parsed_denotes head f fs _ _), lookup_spelled]
    rfl
  have hsupported : ¬ (head.parsedIn f fs sLen).unsupported = true := Bool.false_ne_true
  have hrequest : httpRequest (head.bufferIn f fs sLen) (head.parsedIn f fs sLen).req routes =
      .ok ⟨head.bufferIn f fs sLen, (head.parsedIn f fs sLen).req,
        head.outcome routes (upgradeAsked head.method (f :: fs))⟩ := httpRequest_parsed rfl
  rw [httpMessage, closeMessage_holding hlen, ok_bind, comLen_holding hlen, hparse, ok_bind,
    if_neg hsupported, hlength, ok_bind]
  change (if _ then httpRequest (head.bufferIn f fs sLen) _ _ else
    if tooLarge (head.bufferIn f fs sLen) _ then _ else _) = _
  rw [hrequest]
  rfl

/-- `http()` on a body that fits. -/
theorem httpBody_block (routes : List (List UInt8)) (hlen : (head.block (f :: fs)).length < sLen.toNat) (length : Int)
    {y : List UInt8} (hroom : (head.block (f :: fs)).length + y.length < sLen.toNat) :
    ∃ b, httpBody (withBody (armBody (head.bufferIn f fs sLen) length) y 0)
        (head.parsedIn f fs sLen).req routes = .ok b ∧
      b.outcome = head.outcome routes (upgradeAsked head.method (f :: fs)) ∧
      b.strings = .ok (head.callStrings (cstr y)
        (head.outcome routes (upgradeAsked head.method (f :: fs)))) := by
  obtain ⟨a, ha, hfront⟩ := parsed_front head f fs (head.block (f :: fs)).length
  have hfill := length_behind hlen
  have hmax := sLen.toNat_lt
  have hs : (armBody (head.bufferIn f fs sLen) length).s =
      a ++ 0 :: behind sLen (head.block (f :: fs)) := hfront _
  have hsize : (armBody (head.bufferIn f fs sLen) length).s.length = sLen.toNat := by
    rw [hs, List.length_append, List.length_cons, ha]
    omega
  have hpos : (armBody (head.bufferIn f fs sLen) length).reqPos.toNat = a.length := by
    rw [ha]
    exact comLen_holding hlen
  obtain ⟨z, hclose⟩ := closeMessage_body (y := y) hs hpos (by rw [hsize, ha]; exact hroom)
    (by rw [hsize]; exact hmax)
  have hd : a ++ (y ++ 0 :: z) = (head.parsed f fs (head.block (f :: fs)).length
      ([13, 10] ++ (y ++ 0 :: z))).s := (hfront _).symm
  have hreq : (head.parsedIn f fs sLen).req = (head.parsed f fs (head.block (f :: fs)).length
      ([13, 10] ++ (y ++ 0 :: z))).req := rfl
  have hbody : str (a ++ (y ++ 0 :: z)) (head.block (f :: fs)).length = .ok (cstr y) := by
    rw [str_at rfl ha.symm (by simp), cstr_append_zero]
  rw [httpBody, hclose, ok_bind, hreq]
  exact ⟨_, httpRequest_parsed hd, rfl, strings_parsed _ hd hbody⟩

/-- The decisions about a request with header lines, by what the lookups find. -/
theorem decisions_block (hlen : (head.block (f :: fs)).length < sLen.toNat)
    (hlines : (f :: fs).length ≤ httpMaxHeaders) :
    decisions sLen routes (head.block (f :: fs)) stream =
      head.decided routes (lengthPlan sLen head (f :: fs)) (upgradeAsked head.method (f :: fs))
        stream := by
  obtain ⟨a, ha, hfront⟩ := parsed_front head f fs (head.block (f :: fs)).length
  have hcom := comLen_holding hlen
  rw [decisions, httpMessage_block hlen hlines, lengthPlan, planLength]
  generalize atoi (spelled (f :: fs) textContentLength) = length
  dsimp only
  by_cases hL : length = 0
  · -- without a body
    have hempty : str (head.bufferIn f fs sLen).s (head.block (f :: fs)).length = .ok [] :=
      str_of_load (load_at (hfront _) ha.symm)
    have hstrings := strings_parsed (d := head.bufferIn f fs sLen)
      (head.outcome routes (upgradeAsked head.method (f :: fs))) rfl hempty
    rw [if_pos hL, if_pos hL, ok_bind, if_neg (outcome_ne_body _ _ _)]
    exact hstrings ▸ rfl
  · rw [if_neg hL, if_neg hL]
    have hfree : tooLarge (head.bufferIn f fs sLen) length ↔
        length > Int.bmod (sLen - UInt32.ofNat (head.block (f :: fs)).length).toNat (2 ^ 32) :=
      Iff.rfl
    by_cases hlarge : tooLarge (head.bufferIn f fs sLen) length
    · rw [if_pos hlarge, if_pos (hfree.mp hlarge), ok_bind, if_neg (by simp)]
      rfl
    · have hpos : (armBody (head.bufferIn f fs sLen) length).reqPos.toNat =
          (head.block (f :: fs)).length := hcom
      rw [if_neg hlarge, if_neg (fun h => hlarge (hfree.mpr h)), ok_bind, if_pos rfl, hpos]
      change (if (head.block (f :: fs)).length + (UInt32.ofInt length).toNat < _ then _ else _) = _
      by_cases hroom : (head.block (f :: fs)).length + (UInt32.ofInt length).toNat < sLen.toNat
      · rw [if_pos hroom, if_pos hroom, RequestHead.decided]
        change (if stream.length < (UInt32.ofInt length).toNat then _ else _) = _
        by_cases hshort : stream.length < (UInt32.ofInt length).toNat
        · rw [if_pos hshort, if_pos hshort]
          rfl
        · rw [if_neg hshort, if_neg hshort]
          have hfits : (head.block (f :: fs)).length +
              (stream.take (UInt32.ofInt length).toNat).length < sLen.toNat := by
            rw [List.length_take]
            omega
          obtain ⟨b, hb, houtcome, hstrings⟩ := httpBody_block routes hlen length hfits
          change (httpBody (withBody _ (stream.take (UInt32.ofInt length).toNat) 0) _ _ >>= _) = _
          rw [hb, ok_bind, hstrings, houtcome]
          rfl
      · rw [if_neg hroom, if_neg hroom]
        rfl

/-- More header lines than the table holds. -/
theorem decisions_table (hlen : (head.block (f :: fs)).length < sLen.toNat)
    (hlines : httpMaxHeaders < (f :: fs).length) :
    decisions sLen routes (head.block (f :: fs)) stream = .error .table := by
  have hparse := @parse_block_table head f fs (head.block (f :: fs)).length
    (behind sLen (head.block (f :: fs))) hlines
  rw [decisions, message_error hparse hlen, error_bind]

end Decisions

-- ════════════════════════════════════════════════════════════════════════
-- Two requests
-- ════════════════════════════════════════════════════════════════════════

section TwoRequests

variable {head : RequestHead} {fs gs : List HeaderField} {sLen : UInt32}
  {routes : List (List UInt8)} {key key' : Option (List UInt8)} {plan plan' : LengthPlan}

theorem length_block_case (head : RequestHead) (h : List.Forall₂ HeaderField.SameButCase fs gs) :
    (head.block fs).length = (head.block gs).length := by
  have hlines : (fieldLines fs).length = (fieldLines gs).length := by
    induction h with
    | nil => rfl
    | @cons f g fs gs hfg _ ih =>
      have hname := congrArg List.length hfg.name
      rw [List.length_map, List.length_map] at hname
      have hline : f.line.length = g.line.length := by
        simp only [HeaderField.line, List.length_append, List.length_cons, hname, hfg.value]
      have hcons : ∀ (f : HeaderField) fs,
          (fieldLines (f :: fs)).length = f.line.length + 2 + (fieldLines fs).length := by
        intro f fs
        have hlines : fieldLines (f :: fs) = f.line ++ [13, 10] ++ fieldLines fs := rfl
        rw [hlines, List.length_append, List.length_append]
        rfl
      rw [hcons, hcons, hline, ih]
  simp only [RequestHead.block, List.length_append, List.length_cons, hlines]

theorem ofInt_inj {a b : Int} (ha : -2 ^ 31 ≤ a ∧ a < 2 ^ 31) (hb : -2 ^ 31 ≤ b ∧ b < 2 ^ 31)
    (h : UInt32.ofInt a = UInt32.ofInt b) : a = b := by
  have hnat := congrArg UInt32.toNat h
  simp only [UInt32.ofInt, UInt32.toNat_ofNat'] at hnat
  omega

theorem planLength_range {n : Nat} {length l : Int} (h : planLength sLen n length = .taken l)
    (hlength : -2 ^ 31 ≤ length ∧ length < 2 ^ 31) : -2 ^ 31 ≤ l ∧ l < 2 ^ 31 := by
  rw [planLength] at h
  split at h
  · obtain rfl := LengthPlan.taken.inj h
    decide
  · split at h
    · exact absurd h (by simp)
    · split at h
      · obtain rfl := LengthPlan.taken.inj h
        exact hlength
      · exact absurd h (by simp)

theorem outcome_ne_tooLarge (head : RequestHead) (routes : List (List UInt8))
    (key : Option (List UInt8)) : head.outcome routes key ≠ .respond 413 := by
  cases key with
  | some key => simp [RequestHead.outcome]
  | none =>
    obtain ⟨uri, h⟩ | ⟨code, hcode, h⟩ := outcome_none_cases head routes
    · simp [h]
    · simp [h, hcode]

theorem outcome_inj (h : head.outcome routes key = head.outcome routes key') : key = key' := by
  have hroute : ∀ key, head.outcome routes none ≠ .upgrade head.version key := by
    intro key
    obtain ⟨uri, h⟩ | ⟨code, -, h⟩ := outcome_none_cases head routes
    · simp [h]
    · simp [h]
  cases key with
  | none =>
    cases key' with
    | none => rfl
    | some key' => exact absurd h (hroute key')
  | some key =>
    cases key' with
    | none => exact absurd h.symm (hroute key)
    | some key' => exact congrArg some (HttpOutcome.upgrade.inj h).2

/-- The decisions tell the plans apart, and the keys where the body is taken. -/
theorem decided_inj (hplan : ∀ l, plan = .taken l → -2 ^ 31 ≤ l ∧ l < 2 ^ 31)
    (hplan' : ∀ l, plan' = .taken l → -2 ^ 31 ≤ l ∧ l < 2 ^ 31)
    (h : ∀ stream, head.decided routes plan key stream = head.decided routes plan' key' stream) :
    plan = plan' ∧ ∀ l, plan = .taken l → key = key' := by
  -- a stream on which every body is there
  obtain ⟨stream, hlong⟩ : ∃ stream : List UInt8,
      ∀ l, ¬ stream.length < (UInt32.ofInt l).toNat := by
    obtain ⟨n, hn⟩ : ∃ n : Nat, 2 ^ 32 ≤ n := ⟨_, Nat.le_refl _⟩
    refine ⟨List.replicate n 0, fun l => ?_⟩
    have hlt := (UInt32.ofInt l).toNat_lt
    rw [List.length_replicate]
    omega
  have hstream := h stream
  cases plan with
  | refused =>
    cases plan' with
    | refused => exact ⟨rfl, fun l hl => absurd hl (by simp)⟩
    | outside => exact absurd hstream (by simp [RequestHead.decided])
    | taken l =>
      simp only [RequestHead.decided, if_neg (hlong l), Except.ok.injEq,
        HttpDecision.mk.injEq] at hstream
      exact absurd hstream.2.1.symm (outcome_ne_tooLarge _ _ _)
  | outside =>
    cases plan' with
    | refused => exact absurd hstream (by simp [RequestHead.decided])
    | outside => exact ⟨rfl, fun l hl => absurd hl (by simp)⟩
    | taken l =>
      simp only [RequestHead.decided, if_neg (hlong l)] at hstream
      exact absurd hstream (by simp)
  | taken l =>
    cases plan' with
    | refused =>
      simp only [RequestHead.decided, if_neg (hlong l), Except.ok.injEq,
        HttpDecision.mk.injEq] at hstream
      exact absurd hstream.2.1 (outcome_ne_tooLarge _ _ _)
    | outside =>
      simp only [RequestHead.decided, if_neg (hlong l)] at hstream
      exact absurd hstream (by simp)
    | taken l' =>
      simp only [RequestHead.decided, if_neg (hlong _), Except.ok.injEq,
        HttpDecision.mk.injEq] at hstream
      obtain ⟨harmed, houtcome, -⟩ := hstream
      exact ⟨congrArg _ (ofInt_inj (hplan l rfl) (hplan' l' rfl) harmed),
        fun _ _ => outcome_inj houtcome⟩

/-- Two requests whose header names differ in case get the same decisions exactly when both write
past the table of headers, or the headers spelled `Content-Length` lead to the same plan for the
body and, if it is taken, the ones spelled `Connection`, `Upgrade` and `Sec-WebSocket-Key` ask for
the same upgrade or for none. -/
theorem header_case_iff (head : RequestHead) (fs gs : List HeaderField) (sLen : UInt32)
    (routes : List (List UInt8)) (hcase : List.Forall₂ HeaderField.SameButCase fs gs)
    (hlen : (head.block fs).length < sLen.toNat) :
    SameDecisions sLen routes (head.block fs) (head.block gs) ↔
      httpMaxHeaders < fs.length ∨
        lengthPlan sLen head fs = lengthPlan sLen head gs ∧
          ∀ length, lengthPlan sLen head fs = .taken length →
            upgradeAsked head.method fs = upgradeAsked head.method gs := by
  have hlen' : (head.block gs).length < sLen.toNat := length_block_case head hcase ▸ hlen
  have hcount := hcase.length_eq
  have hrange : ∀ fs l, lengthPlan sLen head fs = .taken l → -2 ^ 31 ≤ l ∧ l < 2 ^ 31 :=
    fun fs l h => planLength_range h (atoi_range _)
  cases hcase with
  | nil => exact iff_of_true (fun _ => rfl) (.inr ⟨rfl, fun _ _ => rfl⟩)
  | @cons f g fs gs =>
    by_cases hlines : httpMaxHeaders < (f :: fs).length
    · refine iff_of_true (fun stream => ?_) (.inl hlines)
      rw [decisions_table hlen hlines, decisions_table hlen' (hcount ▸ hlines)]
    · have hle := Nat.le_of_not_lt hlines
      simp only [SameDecisions, decisions_block hlen hle, decisions_block hlen' (hcount ▸ hle)]
      constructor
      · intro h
        exact .inr (decided_inj (hrange _) (hrange _) h)
      · rintro (hmore | ⟨hplan, hkey⟩) stream
        · exact absurd hmore hlines
        · rw [hplan]
          cases hp : lengthPlan sLen head (g :: gs) with
          | refused => rfl
          | outside => rfl
          | taken l => rw [hkey l (hplan.trans hp)]

end TwoRequests

theorem pathA_ne : ([47, 97] : List UInt8) ≠ [] := List.cons_ne_nil _ _

theorem version11_ok : text11 = text10 ∨ text11 = text11 := .inr rfl

/-- `POST /a HTTP/1.1`. -/
def postHead : RequestHead where
  method := textPost
  target := [47, 97]
  version := text11
  method_clean := List.all_iff_forall_prop.mp (by decide)
  target_ne := pathA_ne
  target_clean := List.all_iff_forall_prop.mp (by decide)
  version_ok := version11_ok

/-- `Host: x`. -/
def hostField : HeaderField where
  name := [72, 111, 115, 116]
  value := [32, 120]
  name_ne := List.cons_ne_nil _ _
  name_token := List.all_iff_forall_prop.mp (by decide)
  value_clean := List.all_iff_forall_prop.mp (by decide)

/-- `HOST: x`. -/
def hostFieldUpper : HeaderField where
  name := [72, 79, 83, 84]
  value := [32, 120]
  name_ne := List.cons_ne_nil _ _
  name_token := List.all_iff_forall_prop.mp (by decide)
  value_clean := List.all_iff_forall_prop.mp (by decide)

/-- The case of a header that is not looked up. -/
theorem header_case_host : postHead.block [hostField] ≠ postHead.block [hostFieldUpper] ∧
    SameDecisions 64 [[47, 97]] (postHead.block [hostField]) (postHead.block [hostFieldUpper]) :=
  ⟨by decide, (header_case_iff postHead [hostField] [hostFieldUpper] 64 [[47, 97]]
    (.cons ⟨by decide, rfl⟩ .nil) (by decide)).mpr (.inr ⟨by decide, fun _ _ => by decide⟩)⟩

/-- `Content-Length: 2`. -/
def lengthField : HeaderField where
  name := textContentLength
  value := [32, 50]
  name_ne := List.cons_ne_nil _ _
  name_token := List.all_iff_forall_prop.mp (by decide)
  value_clean := List.all_iff_forall_prop.mp (by decide)

/-- `content-length: 2`. -/
def lengthFieldLower : HeaderField where
  name := textContentLength.map lowerByte
  value := [32, 50]
  name_ne := List.cons_ne_nil _ _
  name_token := List.all_iff_forall_prop.mp (by decide)
  value_clean := List.all_iff_forall_prop.mp (by decide)

/-- The body `hi` of one of two requests is the beginning of the next request for the other. -/
theorem header_case_length :
    List.Forall₂ HeaderField.SameButCase [lengthField] [lengthFieldLower] ∧
    (∃ d, decisions 64 [[47, 97]] (postHead.block [lengthField]) [104, 105] = .ok d ∧
      d.armed = 2 ∧ d.strings = some ([], [104, 105])) ∧
    ∃ d, decisions 64 [[47, 97]] (postHead.block [lengthFieldLower]) [104, 105] = .ok d ∧
      d.armed = 0 ∧ d.strings = some ([], []) := by
  refine ⟨.cons ⟨by decide, rfl⟩ .nil,
    ⟨⟨2, .route [47, 97], some ([], [104, 105])⟩, ?_, rfl, rfl⟩,
    ⟨⟨0, .route [47, 97], some ([], [])⟩, ?_, rfl, rfl⟩⟩
  · rw [decisions_block (by decide) (by decide)]
    rfl
  · rw [decisions_block (by decide) (by decide)]
    rfl

end Tst
