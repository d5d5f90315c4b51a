import Tst.Ami.Record
import Tst.Lib.Execution

/-!
# The login

`amiLogin()` reads whatever has arrived. It takes 22 bytes for the banner, writes the login
action, and takes what it has read then for a message as soon as it ends with CR LF. The
connection is handed to `ami_event()` afterwards.

## Main definitions

- `LoginConn.iterate` — one round of the loop
- `LoginLink` — the connection, and what the server sends
- `LoginLink.Meets` — the reads end where the banner and the response end

## Main results

- `ami_login` — the login succeeds for a response that says so, and leaves the bytes behind it
-/

namespace Tst

open Bytes CString Execution

/-- Texts of the source. -/
def textManager : List UInt8 :=
  [65, 115, 116, 101, 114, 105, 115, 107, 32, 67, 97, 108, 108, 32, 77, 97, 110, 97, 103, 101, 114,
    47]
def textMessage : List UInt8 := [77, 101, 115, 115, 97, 103, 101]

/-- An `AMI_EVENTS` on the stack. Nothing has been stored in it. -/
structure LocalEvents where
  events : AmiEvents
  event_length : events.event.length = 4096
  slots_length : events.slots.length = 200

/-- How the login ends. -/
inductive LoginEnd
  | connected | failed
  | fault (f : Fault)
  deriving DecidableEq

/-- The connection and the local variables of the loop. -/
structure LoginConn where
  recv : TstData := .alloc 4096
  connected : Nat := 0
  retry : Nat := 100
  actionid : UInt32 := 0
  deriving DecidableEq

/-- What the message read says: nothing about the login, or whether it has succeeded. -/
def AmiEvents.loginResponse (events : AmiEvents) : Except Fault (Option Bool) := do
  let events ← events.parseAmievent
  if events.recCount = 0 then return some false
  else if textResponse.isPrefixOf (← events.strSlot 0) then
    if textSuccess.isPrefixOf (← events.firstValue) then return some true
    else
      -- the message is printed
      let _ ← events.getAmivalue textMessage
      return some false
  else return none

namespace LoginConn

/-- `ioctl()` and `read()`, which find these bytes. -/
def fetch (login : LoginConn) (bytes : List UInt8) : Except Fault LoginConn :=
  let recv := { login.recv with checkedLen := UInt32.ofNat bytes.length }
  if bytes = [] then .ok { login with recv }
  else if recv.comLen.toNat + bytes.length ≤ recv.s.length then
    .ok { login with
      recv := { recv with
        comLen := addResult recv.comLen (some bytes.length)
        s := splice recv.s recv.comLen.toNat bytes } }
  else .error .bounds

/-- The login action is written; `wrote` is whether all of it was taken. -/
def writeAction (login : LoginConn) (wrote : Bool) : LoginConn × Option LoginEnd :=
  let login := { login with actionid := login.actionid + 1 }
  if wrote then
    ({ login with connected := 1, retry := 100, recv := login.recv.resetData }, none)
  else (login, some .failed)

/-- `rdata.s[rdata.com_len - 2] == '\r' && rdata.s[rdata.com_len - 1] == '\n'`. -/
def endsLine (login : LoginConn) : Bool :=
  window login.recv.s (login.recv.comLen.toNat - 2) 2 = [13, 10]

/-- The part of the loop behind the login action. -/
def checkResponse (login : LoginConn) (junk : LocalEvents) : LoginConn × Option LoginEnd :=
  if login.endsLine then
    let events := { junk.events with
      event := strncpy junk.events.event login.recv.s login.recv.comLen.toNat }
    let login := { login with recv := login.recv.resetData }
    match events.loginResponse with
    | .error f => (login, some (.fault f))
    | .ok none => (login, none)
    | .ok (some true) => ({ login with connected := 2 }, some .connected)
    | .ok (some false) => (login, some .failed)
  else (login, none)

/-- One round of the loop. -/
def iterate (login : LoginConn) (bytes : List UInt8) (wrote : Bool) (junk : LocalEvents) :
    LoginConn × Option LoginEnd :=
  match login.fetch bytes with
  | .error f => (login, some (.fault f))
  | .ok login =>
    if login.recv.comLen < 22 then
      let login := { login with retry := login.retry - 1 }
      (login, if login.retry = 0 then some .failed else none)
    else if login.connected = 0 then
      if textManager.isPrefixOf login.recv.s then login.writeAction wrote else (login, some .failed)
    else login.checkResponse junk

end LoginConn

-- ════════════════════════════════════════════════════════════════════════
-- What the server sends
-- ════════════════════════════════════════════════════════════════════════

/-- A banner, a response, and the bytes of any messages behind it. -/
structure LoginStream where
  version : List UInt8
  line : AmiLine
  lines : List AmiLine
  events : List UInt8
  isResponse : line.key = textResponse

namespace LoginStream

def banner (s : LoginStream) : List UInt8 := textManager ++ (s.version ++ [13, 10])

def response (s : LoginStream) : List UInt8 := amiMessage (s.line :: s.lines)

/-- The first line of the response says that the login has succeeded. -/
def Success (s : LoginStream) : Prop := textSuccess.isPrefixOf s.line.value = true

instance (s : LoginStream) : Decidable s.Success := inferInstanceAs (Decidable (_ = true))

/-- Banner and response fit in the receive buffer, the response is no shorter than what the
loop waits for, and its lines fit in the table. -/
structure Fits (s : LoginStream) : Prop where
  banner : s.banner.length ≤ 4096
  response : 22 ≤ s.response.length ∧ s.response.length ≤ 4096
  lines : (s.line :: s.lines).length ≤ 100

end LoginStream

/-- The connection during the login, and what has not been read of the banner, the response
and what follows it. -/
structure LoginLink where
  conn : LoginConn
  banner : List UInt8
  response : List UInt8
  events : List UInt8
  outcome : Option LoginEnd := none

/-- A round of the loop that reads `n` bytes. -/
structure LoginRound where
  n : Nat
  wrote : Bool
  junk : LocalEvents

namespace LoginLink

def start (s : LoginStream) : LoginLink where
  conn := {}
  banner := s.banner
  response := s.response
  events := s.events

/-- What can be read: the response is not sent before the login action has been written. -/
def available (l : LoginLink) : List UInt8 :=
  if l.conn.connected = 0 then l.banner else l.banner ++ (l.response ++ l.events)

/-- What has not been read. -/
def unread (l : LoginLink) : List UInt8 := l.banner ++ (l.response ++ l.events)

def step (l : LoginLink) (a : LoginRound) : Option LoginLink :=
  if l.outcome = none ∧ a.n ≤ l.available.length then
    let r := l.conn.iterate (l.available.take a.n) a.wrote a.junk
    some {
      conn := r.1
      banner := l.banner.drop a.n
      response := l.response.drop (a.n - l.banner.length)
      events := l.events.drop (a.n - l.banner.length - l.response.length)
      outcome := r.2 }
  else none

/-- What the receive buffer holds after the read of a round. -/
def held (l : LoginLink) (a : LoginRound) : List UInt8 :=
  l.conn.recv.s.take l.conn.recv.comLen.toNat ++ l.available.take a.n

/-- The login action is written; the loop does not give up; 22 bytes are not read before the
banner is there; and 22 bytes of the response are read either to its end, where a NUL happens
to stand behind it on the stack, or so that they do not end with CR LF. -/
structure Meets (l : LoginLink) (a : LoginRound) : Prop where
  wrote : a.wrote = true
  patience : (l.held a).length < 22 → 1 < l.conn.retry
  banner : l.conn.connected = 0 → 22 ≤ (l.held a).length → l.banner.length ≤ a.n
  response : l.conn.connected ≠ 0 → 22 ≤ (l.held a).length →
    a.n < l.response.length ∧ ¬ [13, 10] <:+ l.held a ∨
    a.n = l.response.length ∧ a.junk.events.event[(l.held a).length]? = some 0

theorem meets_iff (l : LoginLink) (a : LoginRound) : l.Meets a ↔
    a.wrote = true ∧ ((l.held a).length < 22 → 1 < l.conn.retry) ∧
      (l.conn.connected = 0 → 22 ≤ (l.held a).length → l.banner.length ≤ a.n) ∧
      (l.conn.connected ≠ 0 → 22 ≤ (l.held a).length →
        a.n < l.response.length ∧ ¬ [13, 10] <:+ l.held a ∨
        a.n = l.response.length ∧ a.junk.events.event[(l.held a).length]? = some 0) :=
  ⟨fun h => ⟨h.wrote, h.patience, h.banner, h.response⟩,
    fun ⟨hwrote, hpatience, hbanner, hresponse⟩ => ⟨hwrote, hpatience, hbanner, hresponse⟩⟩

instance (l : LoginLink) (a : LoginRound) : Decidable (l.Meets a) :=
  decidable_of_iff' _ (meets_iff l a)

/-- The login has ended as the response says; where it has succeeded the bytes behind the
response are unread and the receive buffer is empty; and where it has not ended the response
has not been read. -/
structure Right (s : LoginStream) (l : LoginLink) : Prop where
  connected : l.outcome = some .connected →
    s.Success ∧ l.unread = s.events ∧ ∃ c, l.conn.recv = counted 4096 [] c
  failed : l.outcome ≠ none → l.outcome ≠ some .connected → ¬ s.Success
  waiting : l.outcome = none → s.events.length < l.unread.length

end LoginLink

-- ════════════════════════════════════════════════════════════════════════
-- One round
-- ════════════════════════════════════════════════════════════════════════

section Round

variable {s : LoginStream} {login : LoginConn} {x : List UInt8} {c : UInt32} {bs : List UInt8}

theorem fetch_counted (hrecv : login.recv = counted 4096 x c) (h : x.length + bs.length ≤ 4096) :
    login.fetch bs =
      .ok { login with recv := counted 4096 (x ++ bs) (UInt32.ofNat bs.length) } := by
  have hcom : (counted 4096 x c).comLen.toNat = x.length :=
    comLen_counted ((Nat.le_add_right _ _).trans h)
  have hlen : (counted 4096 x c).s.length = 4096 :=
    length_counted ((Nat.le_add_right _ _).trans h)
  have hs : splice (counted 4096 x c).s x.length bs = (counted 4096 (x ++ bs) c).s :=
    splice_counted h
  rw [LoginConn.fetch, hrecv]
  by_cases hbs : bs = []
  · rw [if_pos hbs, hbs, List.append_nil]
    rfl
  · simp only [if_neg hbs, hcom, hlen, if_pos h, addResult_counted, hs]
    rfl

theorem endsLine_counted (hrecv : login.recv = counted 4096 x c) (h2 : 2 ≤ x.length)
    (hx : x.length ≤ 4096) : login.endsLine = [13, 10].isSuffixOf x := by
  have hcom : (counted 4096 x c).comLen.toNat = x.length := comLen_counted hx
  have hlast : (x.drop (x.length - 2)).length = 2 := by
    rw [List.length_drop]
    omega
  have hwin : window (counted 4096 x c).s (x.length - 2) 2 = x.drop (x.length - 2) := by
    change ((x ++ _).drop _).take 2 = _
    rw [List.drop_append_of_le_length (Nat.sub_le _ _),
      List.take_append_of_le_length hlast.ge, List.take_of_length_le hlast.le]
  rw [LoginConn.endsLine, hrecv, hcom, hwin, Bool.eq_iff_iff, decide_eq_true_eq,
    List.isSuffixOf_iff_suffix]
  constructor
  · intro heq
    exact heq ▸ List.drop_suffix _ _
  · intro hsuffix
    exact (List.suffix_iff_eq_drop.mp hsuffix).symm

theorem response_noNul (s : LoginStream) : 0 ∉ s.response := amiMessage_noNul _

theorem response_suffix (s : LoginStream) : [13, 10] <:+ s.response := List.suffix_append _ _

/-- The copy of the response on the stack. -/
theorem strncpy_response {junk : List UInt8} (hjunk : junk.length = 4096)
    (hnul : junk[s.response.length]? = some 0) :
    strncpy junk (counted 4096 s.response c).s s.response.length =
      s.response ++ 0 :: junk.drop (s.response.length + 1) := by
  obtain ⟨hlt, hzero⟩ := List.getElem?_eq_some_iff.mp hnul
  have hcstr : cstr (counted 4096 s.response c).s = s.response := by
    have hfree : 4096 - s.response.length = 4096 - s.response.length - 1 + 1 := by omega
    change cstr (s.response ++ List.replicate (4096 - s.response.length) 0) = _
    rw [hfree, List.replicate_succ]
    exact cstr_append (response_noNul s)
  rw [strncpy, hcstr]
  simp only [List.take_length, Nat.sub_self, List.replicate_zero, List.append_nil]
  rw [splice_eq (by omega), List.take_zero, List.nil_append, Nat.zero_add,
    List.drop_eq_getElem_cons hlt, hzero]

/-- What the response says. -/
theorem loginResponse_response (hlines : (s.line :: s.lines).length ≤ 100) (junk : LocalEvents)
    (hnul : junk.events.event[s.response.length]? = some 0) :
    ({ junk.events with
      event := strncpy junk.events.event (counted 4096 s.response c).s s.response.length }
      : AmiEvents).loginResponse = .ok (some (decide s.Success)) := by
  have hcopied : ({ junk.events with
      event := strncpy junk.events.event (counted 4096 s.response c).s s.response.length }
      : AmiEvents).event = amiMessage (s.line :: s.lines) ++
        0 :: junk.events.event.drop (s.response.length + 1) :=
    strncpy_response junk.event_length hnul
  obtain ⟨e, hparse, hcount, hkey, hvalue, hget⟩ :=
    parsed_message hcopied hlines junk.slots_length
  obtain ⟨text, htext⟩ := hget textMessage
  have hresponse : textResponse.isPrefixOf s.line.key = true := by
    rw [s.isResponse]
    rfl
  rw [AmiEvents.loginResponse, hparse, ok_bind, if_neg hcount, hkey, ok_bind, if_pos hresponse,
    hvalue, ok_bind]
  by_cases hsuccess : textSuccess.isPrefixOf s.line.value = true
  · rw [if_pos hsuccess]
    exact congrArg (fun b => Except.ok (some b)) (decide_eq_true hsuccess).symm
  · rw [if_neg hsuccess, htext]
    exact congrArg (fun b => Except.ok (some b)) (decide_eq_false hsuccess).symm

/-- The response has been read to its end. -/
theorem checkResponse_response (login : LoginConn) (hrecv : login.recv = counted 4096 s.response c)
    (hlines : (s.line :: s.lines).length ≤ 100) (junk : LocalEvents)
    (hnul : junk.events.event[s.response.length]? = some 0) :
    (login.checkResponse junk).2 = some (if s.Success then .connected else .failed) ∧
      (login.checkResponse junk).1.recv = counted 4096 [] c := by
  obtain ⟨hlt, -⟩ := List.getElem?_eq_some_iff.mp hnul
  rw [junk.event_length] at hlt
  have hle : s.response.length ≤ (4096 : UInt32).toNat := hlt.le
  have hlen : 2 ≤ s.response.length := (response_suffix s).length_le
  have hends : login.endsLine = true := by
    rw [endsLine_counted hrecv hlen hlt.le]
    exact List.isSuffixOf_iff_suffix.mpr (response_suffix s)
  have hcom : (counted 4096 s.response c).comLen.toNat = s.response.length := comLen_counted hle
  have hreset : (counted 4096 s.response c).resetData = counted 4096 [] c := resetData_counted hle
  simp only [LoginConn.checkResponse, hends, if_true, hrecv, hcom, hreset,
    loginResponse_response hlines junk hnul]
  by_cases hsuccess : s.Success
  · simp only [hsuccess, decide_true, if_true, and_self]
  · simp only [hsuccess, decide_false, if_false, and_self]

/-- One round, by what the receive buffer holds after its read. -/
theorem iterate_counted (hrecv : login.recv = counted 4096 x c) (h : x.length + bs.length ≤ 4096)
    (wrote : Bool) (junk : LocalEvents) :
    let login' := { login with recv := counted 4096 (x ++ bs) (UInt32.ofNat bs.length) }
    login.iterate bs wrote junk =
      if (x ++ bs).length < 22 then
        ({ login' with retry := login.retry - 1 },
          if login.retry - 1 = 0 then some .failed else none)
      else if login.connected = 0 then
        if textManager.isPrefixOf (counted 4096 (x ++ bs) (UInt32.ofNat bs.length)).s then
          login'.writeAction wrote
        else (login', some .failed)
      else login'.checkResponse junk := by
  intro login'
  have hlen : (x ++ bs).length ≤ 4096 := by
    rw [List.length_append]
    exact h
  have hcom : (counted 4096 (x ++ bs) (UInt32.ofNat bs.length)).comLen.toNat = (x ++ bs).length :=
    comLen_counted hlen
  have hshort : (counted 4096 (x ++ bs) (UInt32.ofNat bs.length)).comLen < 22 ↔
      (x ++ bs).length < 22 := by
    rw [UInt32.lt_iff_toNat_lt, hcom]
    rfl
  simp only [LoginConn.iterate, fetch_counted hrecv h, hshort]
  rfl

end Round

-- ════════════════════════════════════════════════════════════════════════
-- Runs
-- ════════════════════════════════════════════════════════════════════════

/-- How far the login is. -/
inductive LoginPhase (s : LoginStream) (l : LoginLink) : Prop
  | banner (x : List UInt8) (c : UInt32) (hout : l.outcome = none)
      (hconnected : l.conn.connected = 0) (hrecv : l.conn.recv = counted 4096 x c)
      (hx : x.length < 22) (hbanner : x ++ l.banner = s.banner) (hresponse : l.response = s.response)
      (hevents : l.events = s.events)
  | response (x : List UInt8) (c : UInt32) (hout : l.outcome = none)
      (hconnected : l.conn.connected = 1) (hrecv : l.conn.recv = counted 4096 x c)
      (hx : x.length < s.response.length) (hbanner : l.banner = [])
      (hresponse : x ++ l.response = s.response) (hevents : l.events = s.events)
  | connected (c : UInt32) (hout : l.outcome = some .connected) (hsuccess : s.Success)
      (hrecv : l.conn.recv = counted 4096 [] c) (hunread : l.unread = s.events)
  | failed (hout : l.outcome = some .failed) (hfail : ¬ s.Success)

section Runs

variable {s : LoginStream} {l l' : LoginLink} {a : LoginRound}

theorem take_counted {x : List UInt8} {c : UInt32} (hx : x.length ≤ 4096) :
    (counted 4096 x c).s.take (counted 4096 x c).comLen.toNat = x := by
  have hcom : (counted 4096 x c).comLen.toNat = x.length := comLen_counted hx
  rw [hcom]
  exact List.take_left

theorem LoginPhase.right (h : LoginPhase s l) : l.Right s := by
  cases h with
  | banner x c hout hconnected hrecv hx hbanner hresponse hevents =>
    refine ⟨by simp [hout], by simp [hout], fun _ => ?_⟩
    have hlen : 2 ≤ s.response.length := (response_suffix s).length_le
    rw [LoginLink.unread, hresponse, hevents, List.length_append, List.length_append]
    omega
  | response x c hout hconnected hrecv hx hbanner hresponse hevents =>
    refine ⟨by simp [hout], by simp [hout], fun _ => ?_⟩
    have hlen := congrArg List.length hresponse
    rw [List.length_append] at hlen
    rw [LoginLink.unread, hevents, List.length_append, List.length_append]
    omega
  | connected c hout hsuccess hrecv hunread =>
    exact ⟨fun _ => ⟨hsuccess, hunread, c, hrecv⟩, fun _ h => absurd hout h, by simp [hout]⟩
  | failed hout hfail =>
    exact ⟨by simp [hout], fun _ _ => hfail, by simp [hout]⟩

/-- A step is a round of the loop. -/
theorem LoginLink.step_eq (hstep : l.step a = some l') : a.n ≤ l.available.length ∧
    l' = { conn := (l.conn.iterate (l.available.take a.n) a.wrote a.junk).1
           banner := l.banner.drop a.n
           response := l.response.drop (a.n - l.banner.length)
           events := l.events.drop (a.n - l.banner.length - l.response.length)
           outcome := (l.conn.iterate (l.available.take a.n) a.wrote a.junk).2 } := by
  rw [LoginLink.step] at hstep
  split at hstep
  · next hen => exact ⟨hen.2, (Option.some.inj hstep).symm⟩
  · exact absurd hstep (by simp)

/-- A round that reads from the banner. -/
theorem LoginPhase.banner_round {x : List UInt8} {c : UInt32} (hfits : s.Fits)
    (hconnected : l.conn.connected = 0) (hrecv : l.conn.recv = counted 4096 x c)
    (hx : x.length < 22) (hbanner : x ++ l.banner = s.banner) (hresponse : l.response = s.response)
    (hevents : l.events = s.events) (hmeets : l.Meets a) (hstep : l.step a = some l') :
    LoginPhase s l' := by
  have hlen := congrArg List.length hbanner
  rw [List.length_append] at hlen
  have hroom := hfits.banner
  have havail : l.available = l.banner := if_pos hconnected
  have hheld : l.held a = x ++ l.banner.take a.n := by
    rw [LoginLink.held, hrecv, take_counted (by omega), havail]
  have hfit : x.length + (l.banner.take a.n).length ≤ 4096 := by
    have hle := List.length_take_le' a.n l.banner
    omega
  obtain ⟨hn, rfl⟩ := LoginLink.step_eq hstep
  rw [havail] at hn ⊢
  have hrest : l.response.drop (a.n - l.banner.length) = s.response := by
    rw [Nat.sub_eq_zero_of_le hn, List.drop_zero, hresponse]
  have hrest' : l.events.drop (a.n - l.banner.length - l.response.length) = s.events := by
    rw [Nat.sub_eq_zero_of_le hn, Nat.zero_sub, List.drop_zero, hevents]
  rw [iterate_counted hrecv hfit]
  by_cases hshort : (x ++ l.banner.take a.n).length < 22
  · have hretry : l.conn.retry - 1 ≠ 0 := by
      have hpatience := hmeets.patience (hheld ▸ hshort)
      omega
    simp only [if_pos hshort, if_neg hretry]
    refine .banner (x ++ l.banner.take a.n) _ rfl hconnected rfl hshort ?_ hrest hrest'
    rw [List.append_assoc, List.take_append_drop, hbanner]
  · have hall : a.n = l.banner.length :=
      Nat.le_antisymm hn (hmeets.banner hconnected (hheld ▸ Nat.le_of_not_lt hshort))
    have hwhole : x ++ l.banner.take a.n = s.banner := by
      rw [hall, List.take_length, hbanner]
    have hmanager : ∀ n : UInt32, textManager.isPrefixOf (counted 4096 s.banner n).s = true := by
      intro n
      rw [List.isPrefixOf_iff_prefix]
      exact (List.prefix_append _ _).trans (List.prefix_append _ _)
    rw [hwhole] at hshort ⊢
    simp only [if_neg hshort, if_pos hconnected, hmanager, if_true, LoginConn.writeAction,
      hmeets.wrote]
    have hdrop : l.banner.drop a.n = [] := by rw [hall, List.drop_length]
    refine .response [] _ rfl rfl (resetData_counted hroom) ?_ hdrop ?_ hrest'
    · exact Nat.lt_of_lt_of_le (by decide) hfits.response.1
    · exact hrest

/-- A round that reads from the response. -/
theorem LoginPhase.response_round {x : List UInt8} {c : UInt32} (hfits : s.Fits)
    (hconnected : l.conn.connected = 1) (hrecv : l.conn.recv = counted 4096 x c)
    (hx : x.length < s.response.length) (hbanner : l.banner = [])
    (hresponse : x ++ l.response = s.response) (hevents : l.events = s.events)
    (hmeets : l.Meets a) (hstep : l.step a = some l') : LoginPhase s l' := by
  have hlen := congrArg List.length hresponse
  rw [List.length_append] at hlen
  obtain ⟨hlong, hroom⟩ := hfits.response
  have hne : l.conn.connected ≠ 0 := by
    rw [hconnected]
    decide
  have havail : l.available = l.response ++ l.events := by
    rw [LoginLink.available, if_neg hne, hbanner, List.nil_append]
  obtain ⟨hn, rfl⟩ := LoginLink.step_eq hstep
  have hheld : l.held a = x ++ (l.response ++ l.events).take a.n := by
    rw [LoginLink.held, hrecv, take_counted (by omega), havail]
  rw [havail] at hn ⊢
  have hdrop : l.banner.drop a.n = [] := by rw [hbanner, List.drop_nil]
  have hrest' : a.n ≤ l.response.length →
      l.events.drop (a.n - l.banner.length - l.response.length) = s.events := by
    intro hle
    rw [Nat.sub_eq_zero_of_le (by omega), List.drop_zero, hevents]
  by_cases hpart : a.n < l.response.length
  · -- the response goes on
    have htake : (l.response ++ l.events).take a.n = l.response.take a.n :=
      List.take_append_of_le_length hpart.le
    have hmin : (l.response.take a.n).length = a.n := by
      rw [List.length_take]
      omega
    have hfit : x.length + (l.response.take a.n).length ≤ 4096 := by omega
    have hxlen : (x ++ l.response.take a.n).length = x.length + a.n := by
      rw [List.length_append, hmin]
    have hsplit : x ++ l.response.take a.n ++ l.response.drop (a.n - l.banner.length) =
        s.response := by
      rw [hbanner, List.length_nil, Nat.sub_zero, List.append_assoc, List.take_append_drop,
        hresponse]
    rw [htake] at hheld ⊢
    rw [iterate_counted hrecv hfit]
    by_cases hshort : (x ++ l.response.take a.n).length < 22
    · have hretry : l.conn.retry - 1 ≠ 0 := by
        have hpatience := hmeets.patience (hheld ▸ hshort)
        omega
      simp only [if_pos hshort, if_neg hretry]
      exact .response _ _ rfl hconnected rfl (by omega) hdrop hsplit (hrest' hpart.le)
    · have hlong' := hheld ▸ Nat.le_of_not_lt hshort
      have hopen : ¬ [13, 10] <:+ x ++ l.response.take a.n := by
        rcases hmeets.response hne hlong' with ⟨-, hopen⟩ | ⟨hall, -⟩
        · exact hheld ▸ hopen
        · omega
      have hends : (LoginConn.endsLine { l.conn with
          recv := counted 4096 (x ++ l.response.take a.n)
            (UInt32.ofNat (l.response.take a.n).length) }) = false := by
        rw [endsLine_counted rfl (by omega) (by omega), Bool.eq_false_iff, ne_eq,
          List.isSuffixOf_iff_suffix]
        exact hopen
      simp only [if_neg hshort, if_neg hne, LoginConn.checkResponse, hends, Bool.false_eq_true,
        if_false]
      exact .response _ _ rfl hconnected rfl (by omega) hdrop hsplit (hrest' hpart.le)
  · -- the response is read to its end
    have hheld_len : 22 ≤ (l.held a).length := by
      rw [hheld, List.length_append, List.length_take, List.length_append]
      rw [List.length_append] at hn
      omega
    obtain ⟨hall, hnul⟩ : a.n = l.response.length ∧
        a.junk.events.event[(l.held a).length]? = some 0 := by
      rcases hmeets.response hne hheld_len with ⟨hlt, -⟩ | h
      · exact absurd hlt hpart
      · exact h
    have hwhole : x ++ (l.response ++ l.events).take a.n = s.response := by
      rw [hall, List.take_left, hresponse]
    have hfit : x.length + ((l.response ++ l.events).take a.n).length ≤ 4096 := by
      rw [← List.length_append, hwhole]
      exact hroom
    have hshort : ¬ s.response.length < 22 := Nat.not_lt.mpr hlong
    rw [hheld, hwhole] at hnul
    have hunread : l.banner.drop a.n ++ (l.response.drop (a.n - l.banner.length) ++
        l.events.drop (a.n - l.banner.length - l.response.length)) = s.events := by
      rw [hdrop, hrest' hall.le, hbanner, hall, List.length_nil, Nat.sub_zero, List.drop_length]
      rfl
    rw [iterate_counted hrecv hfit]
    rw [hwhole]
    simp only [if_neg hshort, if_neg hne]
    obtain ⟨hout, hempty⟩ := checkResponse_response { l.conn with
      recv := counted 4096 s.response (UInt32.ofNat ((l.response ++ l.events).take a.n).length) }
      rfl hfits.lines a.junk hnul
    by_cases hsuccess : s.Success
    · rw [if_pos hsuccess] at hout
      exact .connected _ hout hsuccess hempty hunread
    · rw [if_neg hsuccess] at hout
      exact .failed hout hsuccess

/-- One round. -/
theorem LoginPhase.step (hfits : s.Fits) (h : LoginPhase s l) (hmeets : l.Meets a)
    (hstep : l.step a = some l') : LoginPhase s l' := by
  cases h with
  | banner x c hout hconnected hrecv hx hbanner hresponse hevents =>
    exact .banner_round hfits hconnected hrecv hx hbanner hresponse hevents hmeets hstep
  | response x c hout hconnected hrecv hx hbanner hresponse hevents =>
    exact .response_round hfits hconnected hrecv hx hbanner hresponse hevents hmeets hstep
  | connected c hout hsuccess hrecv hunread => simp [LoginLink.step, hout] at hstep
  | failed hout hfail => simp [LoginLink.step, hout] at hstep

/-- In every run whose rounds read what they should, the login succeeds exactly when the
response says so, as soon as the response has been read, and leaves the bytes behind it. -/
theorem ami_login (s : LoginStream) (hfits : s.Fits) (as : List LoginRound) (l : LoginLink)
    (h : Exec LoginLink.step LoginLink.Meets (.start s) as l) : l.Right s := by
  have hinit : LoginPhase s (.start s) :=
    .banner [] 0 rfl rfl rfl (by decide) rfl rfl rfl
  have hphase : LoginPhase s l :=
    h.invariant (fun _ _ _ hmeets hl hstep => hl.step hfits hmeets hstep) hinit
  exact hphase.right

end Runs

theorem response_clean : ∀ b ∈ textResponse, b ≠ 0 ∧ b ≠ 58 ∧ b ≠ 13 ∧ b ≠ 10 := by
  simp [textResponse]

theorem success_clean : ∀ b ∈ 32 :: textSuccess, b ≠ 0 ∧ b ≠ 13 ∧ b ≠ 10 := by
  simp [textSuccess]

/-- `Response: Success`, a line without a value, and an empty line; an event follows. -/
def loginOk : LoginStream where
  version := [49]
  line := ⟨textResponse, 32 :: textSuccess, List.cons_ne_nil _ _, response_clean, success_clean⟩
  lines := [⟨textResponse, [], List.cons_ne_nil _ _, response_clean, List.forall_mem_nil _⟩]
  events := [69, 58, 32, 99, 13, 10, 13, 10]
  isResponse := rfl

/-- The stack holds zeros. -/
def zeroJunk : LocalEvents where
  events := {}
  event_length := List.length_replicate
  slots_length := List.length_replicate

/-- A read of `n` bytes. -/
def LoginRound.reads (n : Nat) : LoginRound := ⟨n, true, zeroJunk⟩

/-- The banner in two reads, and the response in two. -/
theorem ami_login_ok : ∃ l, Exec LoginLink.step LoginLink.Meets (.start loginOk)
    [.reads 10, .reads 15, .reads 12, .reads 20] l ∧ l.Right loginOk ∧
    l.outcome = some .connected := by
  obtain ⟨l, hl, hout⟩ : ∃ l, Exec LoginLink.step LoginLink.Meets (.start loginOk)
      [.reads 10, .reads 15, .reads 12, .reads 20] l ∧
      decide (l.outcome = some .connected) = true :=
    Exec.exists_of_check (by decide +kernel)
  exact ⟨l, hl, ami_login loginOk ⟨by decide, by decide, by decide⟩ _ l hl, of_decide_eq_true hout⟩

/-- The event that arrives with the response is lost. -/
theorem login_loses_event : ∃ l,
    run LoginLink.step (.start loginOk) [.reads 25, .reads 40] = some l ∧ ¬ l.Right loginOk := by
  have hrun : (run LoginLink.step (.start loginOk) [.reads 25, .reads 40]).any
      (fun l => l.outcome = some .connected ∧ l.unread = []) = true := by decide +kernel
  obtain ⟨l, hl, hend⟩ := (Option.any_eq_true ..).mp hrun
  obtain ⟨hout, hunread⟩ := of_decide_eq_true hend
  refine ⟨l, hl, fun hright => ?_⟩
  have hevents := (hright.connected hout).2.1
  rw [hunread] at hevents
  exact absurd hevents (by decide)

end Tst
