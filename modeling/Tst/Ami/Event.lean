import Tst.Http.Request
import Tst.Work.Message
import Tst.Work.Transfer

/-!
# Messages of the AMI connection

`ami_event()` reads one message at a time, matches a response with the action that waits for
it, and hands events on. Other threads change `AMI_MANAGE` while it does so; what it reads
there is an argument here.

## Main definitions

- `parseAmievent`, `getAmivalue` — the records of a message
- `AmiConn.amiEvent` — one call of `ami_event()`
- `AmiConn.wake` — one wake-up of the connection
-/

namespace Tst

open Bytes CString

/-- `AMI_EVENTS`. Pointers are indices into `event`. The arrays `key[100]` and `value[100]`
lie one behind the other and are one table here: `key[i]` is slot `i`, and `value[i]` is slot
`100 + i`. -/
structure AmiEvents where
  event : List UInt8 := List.replicate 4096 0
  recCount : Nat := 0
  slots : List (Option Nat) := List.replicate 200 none
  deriving DecidableEq

/-- `AMI_MODE`. -/
inductive AmiMode
  | none | request | response
  deriving DecidableEq, Repr

/-- `AMI_RESPONSE`, without the text of `msg`. -/
structure AmiResponse where
  mode : AmiMode := .none
  result : Int := 0
  responses : AmiEvents := {}
  deriving DecidableEq

/-- Texts of the source. -/
def textActionID : List UInt8 := [65, 99, 116, 105, 111, 110, 73, 68]
def textResponse : List UInt8 := [82, 101, 115, 112, 111, 110, 115, 101]
def textSuccess : List UInt8 := [83, 117, 99, 99, 101, 115, 115]

/-- `strncpy(s, text, n)`, with a text that a NUL or the bytes `text` end. -/
def strncpy (s text : List UInt8) (n : Nat) : List UInt8 :=
  let copied := (cstr text).take n
  splice s 0 (copied ++ List.replicate (n - copied.length) 0)

namespace AmiEvents

/-- A store into the table. -/
def setSlot (events : AmiEvents) (i : Nat) (p : Option Nat) : Except Fault AmiEvents :=
  if i < events.slots.length then .ok { events with slots := events.slots.set i p }
  else .error .table

/-- The string that a slot points at. -/
def strSlot (events : AmiEvents) (i : Nat) : Except Fault (List UInt8) := do
  str events.event (← deref (events.slots.getD i none))

/-- `*p == '\r' && *(p+1) == '\n'`. -/
def atLineEnd (events : AmiEvents) (p : Nat) : Except Fault Bool := do
  if (← load events.event p) = 13 then return (← load events.event (p + 1)) = 10
  return false

/-- The `:` of a record at `p`. -/
def endKey (events : AmiEvents) (p : Nat) (start : Option Nat) : Except Fault AmiEvents := do
  let event ← store events.event p 0
  { events with event }.setSlot events.recCount start

/-- The line end of a record at `p`. -/
def endValue (events : AmiEvents) (p : Nat) (start : Option Nat) : Except Fault AmiEvents := do
  let event ← store events.event p 0
  let event ← store event (p + 1) 0
  let events := { events with event }
  if start.isSome then
    let events ← events.setSlot (100 + events.recCount) start
    return { events with recCount := events.recCount + 1 }
  else return events

/-- The loop of `parse_amievent()`. Behind the line end of a value it skips one more byte
without looking at it. -/
def parseLoop : Nat → AmiEvents → Nat → Option Nat → Bool → Except Fault AmiEvents
  | 0, _, _, _, _ => .error .endless
  | fuel + 1, events, p, start, isHeader => do
    let b ← load events.event p
    if b = 0 then return events
    else if isHeader then
      if b = 58 then parseLoop fuel (← events.endKey p start) (p + 1) none false
      else parseLoop fuel events (p + 1) start true
    else
      let start := if start = none ∧ b ≠ 32 then some p else start
      if ← events.atLineEnd p then
        parseLoop fuel (← events.endValue p start) (p + 3) (some (p + 2)) true
      else parseLoop fuel events (p + 1) start false

/-- `parse_amievent()`. -/
def parseAmievent (events : AmiEvents) : Except Fault AmiEvents :=
  parseLoop (events.event.length + 1) { events with recCount := 0 } 0 (some 0) true

/-- The loop of `get_amivalue()`, with `n` records to come. -/
def getAmivalueLoop (events : AmiEvents) (key : List UInt8) : Nat → Except Fault (List UInt8)
  | 0 => .ok []
  | n + 1 => do
    let i := events.recCount - (n + 1)
    if (← events.strSlot i) = key then events.strSlot (100 + i)
    else getAmivalueLoop events key n

/-- `get_amivalue()`: the value of the first record with that key, or the empty string. -/
def getAmivalue (events : AmiEvents) (key : List UInt8) : Except Fault (List UInt8) :=
  getAmivalueLoop events key events.recCount

/-- The first value: `value[0]`. -/
def firstValue (events : AmiEvents) : Except Fault (List UInt8) := events.strSlot 100

/-- `(uint32_t)atoi(get_amivalue(events, "ActionID"))`. -/
def actionId (events : AmiEvents) : Except Fault UInt32 := do
  return UInt32.ofInt (atoi (← events.getAmivalue textActionID))

end AmiEvents

namespace AmiResponse

/-- The message is copied into the response and parsed there. -/
def takeMessage (resp : AmiResponse) (s : List UInt8) : Except Fault AmiResponse := do
  let responses := { resp.responses with event := strncpy resp.responses.event s 4095 }
  return { resp with responses := ← responses.parseAmievent }

/-- The message belongs to the action: the result is that of its first value. -/
def accept (resp : AmiResponse) : Except Fault AmiResponse := do
  let success := textSuccess.isPrefixOf (← resp.responses.firstValue)
  return { resp with mode := .response, result := if success then 0 else -1 }

/-- The message belongs to a later action. -/
def refuse (resp : AmiResponse) : AmiResponse := { resp with mode := .response, result := -2 }

end AmiResponse

/-- The name of an event: what follows `": "`, if that is the first `:`. -/
def eventName (s : List UInt8) : Except Fault (Option (List UInt8)) :=
  match cutAt 58 s with
  | none => .error .null
  | some (_, 32 :: rest) => .ok (some ((cstr rest).takeWhile fun b => b ≠ 13 && b ≠ 10))
  | some _ => .ok none

/-- What `ami_event()` reads of `AMI_MANAGE` while it handles a message. -/
structure ManageView where
  /-- `manage.pResp`, at the first test -/
  pending : Bool
  /-- `manage.resp_waitcount && manage.pResp->mode == action_requst` -/
  awaited : Bool
  /-- `*manage.pResp`, under the lock -/
  resp : AmiResponse
  /-- `manage.actionid`, at its two comparisons -/
  actionid : UInt32
  actionid' : UInt32

/-- What becomes of a message. -/
inductive AmiOutcome
  /-- a response, and its message, for the call that waits -/
  | response (resp : AmiResponse)
  /-- a message handed to the handler of that name -/
  | queued (name : List UInt8) (events : AmiEvents)
  /-- a message that is dropped -/
  | dropped
  deriving DecidableEq

/-- The part at `check_ami_event_handler`, where `log_event_level` is 0; `handlers` are the names in
`g_process`. At a higher level a copy of its own is parsed for the log first. -/
def checkHandler (s : List UInt8) (comLen : Nat) (handlers : List (List UInt8)) :
    Except Fault AmiOutcome := do
  match ← eventName s with
  | none => return .dropped
  | some name =>
    if handlers.contains name then
      let events : AmiEvents := {}
      let events := { events with event := strncpy events.event s comLen }
      return .queued name (← events.parseAmievent)
    else return .dropped

/-- What `ami_event()` does with a message. -/
def handleMessage (s : List UInt8) (comLen : Nat) (handlers : List (List UInt8))
    (view : ManageView) : Except Fault AmiOutcome := do
  if view.pending ∧ (textResponse ++ [58]).isPrefixOf s ∧ view.awaited then
    let resp ← view.resp.takeMessage s
    let currId ← resp.responses.actionId
    if currId < view.actionid then checkHandler s comLen handlers
    else if currId > view.actionid' then return .response resp.refuse
    else return .response (← resp.accept)
  else checkHandler s comLen handlers

/-- The AMI connection, with the bytes that have arrived and are unread. -/
structure AmiConn where
  sd : Nat
  recv : TstData
  unread : List UInt8 := []

/-- What a call of `ami_event()` leaves: the connection, the receive buffer as it was when a
message was handled, and what became of the message. -/
structure AmiResult where
  conn : AmiConn
  message : Option TstData := none
  outcome : Except Fault (Option AmiOutcome) := .ok none

namespace AmiConn

/-- The number of bytes to read: what is free but for a NUL, or what has been counted. -/
def remain (d : TstData) : Int :=
  min (Int.bmod (d.sLen - d.comLen - 1).toNat (2 ^ 32)) (Int.bmod d.checkedLen.toNat (2 ^ 32))

/-- The loop over the bytes of a message. -/
def receive (conn : AmiConn) : AmiConn :=
  let r := readMessage 0 (fun _ => true) (remain conn.recv).toNat conn.recv conn.unread
  { conn with recv := r.1, unread := r.2 }

/-- `rdata.reset_data()`. -/
def reset (conn : AmiConn) : AmiConn := { conn with recv := conn.recv.resetData }

/-- `ami_event()` on the AMI socket. It always answers `tst_suspend`. -/
def amiEvent (conn : AmiConn) (e : Events) (handlers : List (List UInt8)) (view : ManageView) :
    AmiResult :=
  if e.epollin then
    let conn := conn.receive
    if conn.recv.endsMessage 0 then
      match store conn.recv.s conn.recv.comLen.toNat 0 with
      | .error fault => { conn, outcome := .error fault }
      | .ok s =>
        let conn := { conn with recv := { conn.recv with s } }
        { conn := conn.reset
          message := some conn.recv
          outcome := (handleMessage s conn.recv.comLen.toNat handlers view).map some }
    else { conn }
  else { conn := conn.reset }

/-- A wake-up with the event bits `e`, at which `n` unread bytes have been counted: what
`tst_main` stores in the socket, the worker's transfer, and, when that asks for the user
function, `http()`, which passes the call on to `ami_event()`. -/
def wake (conn : AmiConn) (e : Events) (n : Nat) (k : Kernel) (handlers : List (List UInt8))
    (view : ManageView) : AmiResult :=
  let sock : TstSocket := { sd := conn.sd, recv := some conn.recv }
  let r := (sock.handEvents e (UInt32.ofNat n)).transfer k
  let conn := { conn with recv := r.sock.recv.getD conn.recv }
  if r.next = .run then conn.amiEvent e handlers view else { conn }

end AmiConn

end Tst
