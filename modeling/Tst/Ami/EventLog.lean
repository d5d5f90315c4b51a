import Tst.Ami.EventRecords
import Tst.Ami.Total
import Tst.Http.Response

/-!
# The log of an event

`event_dialend()`, `logging_events()` and `ami_sync()` print all records of a message into
`char msg[2048]` on the stack, one behind the other, and trace it as a string. Nothing is in `msg`
before the first print, and no print is bounded.

## Main definitions

- `eventDialend`, `loggingEvents`, `AmiResponse.logprint` — the three, with the string they trace
- `EventLog.Fits` — the records for which the log fits

## Main results

- `eventLog_iff` — when a log stays inside `msg` and has an end
- `message_log_iff` — the same for a message in a block that is zeroed
- `message_fits` — it does for every message that is short enough
-/

namespace Tst

open Bytes CString

/-- Texts of the source. -/
def textDialStatus : List UInt8 := [68, 105, 97, 108, 83, 116, 97, 116, 117, 115]
def textCallerIDNum : List UInt8 := [67, 97, 108, 108, 101, 114, 73, 68, 78, 117, 109]
def textAnswer : List UInt8 := [65, 78, 83, 87, 69, 82]
def textExten : List UInt8 := [69, 120, 116, 101, 110]
def textChannel : List UInt8 := [67, 104, 97, 110, 110, 101, 108]
def textDestChannel : List UInt8 := [68, 101, 115, 116, 67, 104, 97, 110, 110, 101, 108]
def textDestUniqueid : List UInt8 :=
  [68, 101, 115, 116, 85, 110, 105, 113, 117, 101, 105, 100]

/-- `"--- %s(atp threadno:%d)...\n"`, with the name `event_dialend`. -/
def dialendLine (nThreadNo : Int) : List UInt8 :=
  [45, 45, 45, 32, 101, 118, 101, 110, 116, 95, 100, 105, 97, 108, 101, 110, 100, 40, 97, 116, 112,
    32, 116, 104, 114, 101, 97, 100, 110, 111, 58] ++
      (printInt nThreadNo ++ [41, 46, 46, 46, 10])

/-- `"%s%s: %s\n"`, for record `i`. -/
def recordLine (i : Nat) (key value : List UInt8) : List UInt8 :=
  (if i = 0 then [] else [32, 32, 32, 32]) ++ (key ++ 58 :: 32 :: (value ++ [10]))

namespace AmiEvents

/-- The loop over the records, with `n` of them to come: `msg` afterwards. -/
def printRecords (events : AmiEvents) : Nat → List UInt8 → Nat → Except Fault (List UInt8)
  | 0, msg, _ => .ok msg
  | n + 1, msg, len => do
    let i := events.recCount - (n + 1)
    let line := recordLine i (← events.strSlot i) (← events.strSlot (100 + i))
    printRecords events n (← sprintf msg len line) (len + line.length)

/-- The records are printed behind `len` bytes, and `msg` is traced. -/
def traceRecords (events : AmiEvents) (msg : List UInt8) (len : Nat) :
    Except Fault (List UInt8) := do
  str (← events.printRecords events.recCount msg len) 0

end AmiEvents

/-- `logging_events()`, with what is in `msg` before it: the string that is traced. -/
def loggingEvents (events : AmiEvents) (msg : List UInt8) : Except Fault (List UInt8) :=
  events.traceRecords msg 0

/-- The part of `ami_sync()` under `logprint`. -/
def AmiResponse.logprint (resp : AmiResponse) (msg : List UInt8) : Except Fault (List UInt8) :=
  resp.responses.traceRecords msg 0

/-- `event_dialend()`. Nothing is done with what it looks up. -/
def eventDialend (events : AmiEvents) (nThreadNo : Int) (msg : List UInt8) :
    Except Fault (List UInt8) := do
  let dialStatus ← events.getAmivalue textDialStatus
  let _ ← events.getAmivalue textCallerIDNum
  let msg ← sprintf msg 0 (dialendLine nThreadNo)
  let traced ← events.traceRecords msg (dialendLine nThreadNo).length
  if dialStatus = textAnswer then
    let _ ← events.getAmivalue textExten
    let _ ← events.getAmivalue textChannel
    let _ ← events.getAmivalue textDestChannel
    let _ ← events.getAmivalue textDestUniqueid
    return traced
  else return traced

/-- Where a message is logged, with the block that it is copied into. -/
inductive EventLog
  /-- `event_dialend()`: a job, whose block is zeroed, and the number of its thread -/
  | dialend (nThreadNo : Int)
  /-- `logging_events()`, for a job or for the copy on the stack of `ami_event()` -/
  | events (block : AmiEvents)
  /-- `ami_sync()`, with its response as earlier parses leave it -/
  | sync (resp : AmiResponse)

namespace EventLog

/-- The block with the copy of the message; `junk` stands behind it in the receive buffer. -/
def copy (m junk : List UInt8) : EventLog → AmiEvents
  | dialend _ => { event := strncpy (List.replicate 4096 0) (m ++ 0 :: junk) m.length }
  | events block => { block with event := strncpy block.event (m ++ 0 :: junk) m.length }
  | sync resp => { resp.responses with event := strncpy resp.responses.event (m ++ 0 :: junk) 4095 }

/-- The log of a parsed message: the string that is traced. -/
def trace (e : AmiEvents) (msg : List UInt8) : EventLog → Except Fault (List UInt8)
  | dialend nThreadNo => eventDialend e nThreadNo msg
  | events _ => loggingEvents e msg
  | sync resp => { resp with responses := e }.logprint msg

end EventLog

/-- How long the log of some records is. -/
def logLength (records : List (List UInt8 × List UInt8)) : Nat :=
  recordsLength records + 4 * (records.length - 1)

namespace EventLog

/-- What is printed before the records. -/
def head : EventLog → List UInt8
  | dialend nThreadNo => dialendLine nThreadNo
  | events _ => []
  | sync _ => []

/-- The log of these records and its NUL are not longer than `msg`, and something is printed. -/
def Fits (log : EventLog) (records : List (List UInt8 × List UInt8)) : Prop :=
  (log.head ≠ [] ∨ records ≠ []) ∧ log.head.length + logLength records < 2048

instance (log : EventLog) (records : List (List UInt8 × List UInt8)) :
    Decidable (log.Fits records) := inferInstanceAs (Decidable (_ ∧ _))

end EventLog

-- ════════════════════════════════════════════════════════════════════════
-- The prints
-- ════════════════════════════════════════════════════════════════════════

/-- The log of some records, the first of which is record `i`. -/
def logText : Nat → List (List UInt8 × List UInt8) → List UInt8
  | _, [] => []
  | i, record :: records => recordLine i record.1 record.2 ++ logText (i + 1) records

section Print

variable {events e : AmiEvents} {record : List UInt8 × List UInt8}
  {records done : List (List UInt8 × List UInt8)} {msg msg' r x : List UInt8} {len : Nat}

theorem length_recordLine (i : Nat) (key value : List UInt8) :
    (recordLine i key value).length =
      key.length + value.length + 3 + (if i = 0 then 0 else 4) := by
  rw [recordLine]
  split
  · simp only [List.length_append, List.length_cons, List.length_nil]
    omega
  · simp only [List.length_append, List.length_cons, List.length_nil]
    omega

theorem length_logText_succ (i : Nat) (records : List (List UInt8 × List UInt8)) :
    (logText (i + 1) records).length = recordsLength records + 4 * records.length := by
  induction records generalizing i with
  | nil => rfl
  | cons record records ih =>
    rw [logText, List.length_append, length_recordLine, if_neg (Nat.succ_ne_zero i), ih,
      recordsLength_cons, List.length_cons]
    omega

theorem length_logText (records : List (List UInt8 × List UInt8)) :
    (logText 0 records).length = logLength records := by
  cases records with
  | nil => rfl
  | cons record records =>
    rw [logText, List.length_append, length_recordLine, if_pos rfl, length_logText_succ, logLength,
      recordsLength_cons, List.length_cons]
    omega

theorem recordLine_noNul (i : Nat) (hrecord : 0 ∉ record.1 ∧ 0 ∉ record.2) :
    0 ∉ recordLine i record.1 record.2 := by
  rw [recordLine]
  split
  · simp [hrecord.1, hrecord.2]
  · simp [hrecord.1, hrecord.2]

theorem logText_noNul (i : Nat) (hclean : ∀ record ∈ records, 0 ∉ record.1 ∧ 0 ∉ record.2) :
    0 ∉ logText i records := by
  induction records generalizing i with
  | nil => exact List.not_mem_nil
  | cons record records ih =>
    rw [logText, List.mem_append, not_or]
    exact ⟨recordLine_noNul i (hclean record (List.mem_cons_self ..)),
      ih (i + 1) fun record hmem => hclean record (List.mem_cons_of_mem _ hmem)⟩

/-- One print. -/
theorem printRecords_cons (done : List (List UInt8 × List UInt8))
    (h : HasRecords events (done ++ record :: records)) :
    events.printRecords (record :: records).length msg len =
      sprintf msg len (recordLine done.length record.1 record.2) >>= fun msg =>
        events.printRecords records.length msg
          (len + (recordLine done.length record.1 record.2).length) := by
  have hi : events.recCount - (records.length + 1) = done.length := by
    rw [h.recCount, List.length_append, List.length_cons]
    omega
  obtain ⟨hkey, hvalue⟩ := h.strings done.length record (by simp)
  rw [List.length_cons, AmiEvents.printRecords, hi, hkey, ok_bind, hvalue, ok_bind]

/-- Prints that fit behind a string. -/
theorem printRecords_ok (done : List (List UInt8 × List UInt8))
    (h : HasRecords events (done ++ records)) (hmsg : msg = x ++ 0 :: r)
    (hfits : x.length + (logText done.length records).length < msg.length) :
    ∃ r, events.printRecords records.length msg x.length =
      .ok (x ++ logText done.length records ++ 0 :: r) := by
  induction records generalizing done msg x r with
  | nil => exact ⟨r, by rw [hmsg, logText, List.append_nil]; rfl⟩
  | cons record records ih =>
    rw [logText, List.length_append] at hfits
    have htake : msg.take x.length = x := by rw [hmsg, List.take_left]
    obtain ⟨w, hprint⟩ := sprintf_eq (recordLine done.length record.1 record.2) htake (by omega)
    have hlen := length_sprintf hprint
    have hnext : HasRecords events (done ++ [record] ++ records) := by
      rw [List.append_assoc]
      exact h
    obtain ⟨w, hrest⟩ := ih (done ++ [record])
        (x := x ++ recordLine done.length record.1 record.2) hnext rfl (by
      rw [hlen, List.length_append, List.length_append, List.length_singleton]
      omega)
    refine ⟨w, ?_⟩
    rw [List.length_append, List.length_append, List.length_singleton] at hrest
    rw [printRecords_cons done h, hprint, ok_bind, hrest, logText]
    simp only [List.append_assoc]

/-- Prints that stay inside `msg`. -/
theorem printRecords_lt (done : List (List UInt8 × List UInt8))
    (h : HasRecords events (done ++ records)) (hlen : len < msg.length)
    (hok : events.printRecords records.length msg len = .ok msg') :
    len + (logText done.length records).length < msg.length := by
  induction records generalizing done msg len with
  | nil => exact hlen
  | cons record records ih =>
    rw [printRecords_cons done h] at hok
    obtain ⟨msg₁, hprint, hok⟩ := bind_eq_ok.mp hok
    have hlt := sprintf_lt hprint
    have hnext : HasRecords events (done ++ [record] ++ records) := by
      rw [List.append_assoc]
      exact h
    have hrest := ih (done ++ [record]) hnext (by rw [length_sprintf hprint]; exact hlt) hok
    rw [length_sprintf hprint, List.length_append, List.length_singleton] at hrest
    rw [logText, List.length_append]
    omega

/-- A log behind a string that is printed already. -/
theorem traceRecords_behind (h : HasRecords e records) (hmsg : msg = x ++ 0 :: r) (hx : 0 ∉ x)
    (hfits : x.length + logLength records < msg.length) :
    e.traceRecords msg x.length = .ok (x ++ logText 0 records) := by
  obtain ⟨r, hprint⟩ := printRecords_ok [] h hmsg (by
    rw [List.length_nil, length_logText]
    exact hfits)
  have hnul : 0 ∉ x ++ logText 0 records := by
    rw [List.mem_append, not_or]
    exact ⟨hx, logText_noNul 0 h.clean⟩
  rw [AmiEvents.traceRecords, h.recCount, hprint, ok_bind]
  exact str_text (a := []) rfl rfl hnul

/-- A log at the beginning of `msg`: the first print stores a NUL. -/
theorem traceRecords_first (h : HasRecords e records) (hne : records ≠ [])
    (hfits : logLength records < msg.length) :
    e.traceRecords msg 0 = .ok (logText 0 records) := by
  obtain ⟨record, records, rfl⟩ := List.exists_cons_of_ne_nil hne
  rw [← length_logText, logText, List.length_append] at hfits
  obtain ⟨r, hprint⟩ := sprintf_eq (s := msg) (x := []) (recordLine 0 record.1 record.2) rfl (by
    rw [List.length_nil]
    omega)
  have hlen := length_sprintf hprint
  obtain ⟨r, hrest⟩ := printRecords_ok [record]
    (x := [] ++ recordLine 0 record.1 record.2) h rfl (by
      rw [hlen, List.nil_append]
      exact hfits)
  rw [List.nil_append] at hprint hrest
  have hnul : 0 ∉ logText 0 (record :: records) := logText_noNul 0 h.clean
  have hall : e.printRecords (record :: records).length msg 0 =
      .ok (logText 0 (record :: records) ++ 0 :: r) := by
    rw [printRecords_cons [] h, List.length_nil]
    rw [show sprintf msg 0 (recordLine 0 record.1 record.2) = _ from hprint, ok_bind, Nat.zero_add]
    exact hrest
  rw [AmiEvents.traceRecords, h.recCount, hall, ok_bind]
  exact str_text (a := []) rfl rfl hnul

/-- What is traced has stayed inside `msg`. -/
theorem traceRecords_lt {text : List UInt8} (h : HasRecords e records) (hlen : len < msg.length)
    (hok : e.traceRecords msg len = .ok text) : len + logLength records < msg.length := by
  obtain ⟨msg', hprint, -⟩ := bind_eq_ok.mp hok
  rw [h.recCount] at hprint
  have hlt := printRecords_lt [] h hlen hprint
  rwa [List.length_nil, length_logText] at hlt

/-- Without a record `msg` is traced as it is found. -/
theorem traceRecords_empty (h : HasRecords e []) (msg : List UInt8) :
    e.traceRecords msg 0 = str msg 0 := by
  rw [AmiEvents.traceRecords, h.recCount]
  rfl

theorem str_unterminated {s text : List UInt8} (hs : 0 ∉ s) : str s 0 ≠ .ok text := by
  have hnone : find s (· = 0) 0 = .error .bounds :=
    find_none (a := []) rfl rfl fun b hb => decide_eq_false fun h => hs (h ▸ hb)
  rw [str, hnone]
  simp

theorem HasRecords.getAmivalue (h : HasRecords e records) (key : List UInt8) :
    ∃ s, e.getAmivalue key = .ok s := by
  refine getAmivalueLoop_ok key (fun i hi => ?_) (Nat.le_refl _)
  rw [h.recCount] at hi
  obtain ⟨hkey, hvalue⟩ := h.strings i _ (List.getElem?_eq_getElem hi)
  exact ⟨⟨_, hkey⟩, _, hvalue⟩

/-- What `event_dialend()` looks up does not matter for its log. -/
theorem eventDialend_eq (h : HasRecords e records) (nThreadNo : Int) (msg : List UInt8) :
    eventDialend e nThreadNo msg =
      sprintf msg 0 (dialendLine nThreadNo) >>= fun msg =>
        e.traceRecords msg (dialendLine nThreadNo).length := by
  obtain ⟨dialStatus, hdialStatus⟩ := h.getAmivalue textDialStatus
  obtain ⟨callerIDNum, hcallerIDNum⟩ := h.getAmivalue textCallerIDNum
  obtain ⟨exten, hexten⟩ := h.getAmivalue textExten
  obtain ⟨channel, hchannel⟩ := h.getAmivalue textChannel
  obtain ⟨destChannel, hdestChannel⟩ := h.getAmivalue textDestChannel
  obtain ⟨destUniqueid, hdestUniqueid⟩ := h.getAmivalue textDestUniqueid
  rw [eventDialend, hdialStatus, ok_bind, hcallerIDNum, ok_bind]
  congr 1
  funext msg
  cases htrace : e.traceRecords msg (dialendLine nThreadNo).length with
  | error fault => rfl
  | ok traced =>
    rw [ok_bind]
    split
    · rw [hexten, ok_bind, hchannel, ok_bind, hdestChannel, ok_bind, hdestUniqueid, ok_bind]
      rfl
    · rfl

theorem dialendLine_noNul (nThreadNo : Int) : 0 ∉ dialendLine nThreadNo := by
  simp [dialendLine, printInt_noNul]

/-- A log that fits is traced, with all records. -/
theorem trace_of_fits {log : EventLog} (h : HasRecords e records) (hfits : log.Fits records)
    (hmsg : msg.length = 2048) : log.trace e msg = .ok (log.head ++ logText 0 records) := by
  obtain ⟨hsome, hfits⟩ := hfits
  rw [← hmsg] at hfits
  cases log with
  | dialend nThreadNo =>
    change (dialendLine nThreadNo).length + logLength records < msg.length at hfits
    obtain ⟨r, hprint⟩ := sprintf_eq (s := msg) (x := []) (dialendLine nThreadNo) rfl (by
      rw [List.length_nil]
      omega)
    have hlen := length_sprintf hprint
    rw [List.length_nil, List.nil_append] at hprint
    change eventDialend e nThreadNo msg = _
    rw [eventDialend_eq h, hprint, ok_bind]
    exact traceRecords_behind h rfl (dialendLine_noNul nThreadNo) (hlen ▸ hfits)
  | events block =>
    rw [EventLog.head, List.length_nil, Nat.zero_add] at hfits
    exact traceRecords_first h (hsome.resolve_left fun hne => hne rfl) hfits
  | sync resp =>
    rw [EventLog.head, List.length_nil, Nat.zero_add] at hfits
    exact traceRecords_first (e := e) h (hsome.resolve_left fun hne => hne rfl) hfits

/-- A log that is traced has stayed inside `msg`. -/
theorem trace_lt {log : EventLog} {text : List UInt8} (h : HasRecords e records)
    (hmsg : msg.length = 2048) (htext : log.trace e msg = .ok text) :
    log.head.length + logLength records < 2048 := by
  have hpos : 0 < msg.length := by omega
  rw [← hmsg]
  cases log with
  | dialend nThreadNo =>
    change eventDialend e nThreadNo msg = _ at htext
    rw [eventDialend_eq h] at htext
    obtain ⟨msg', hprint, htext⟩ := bind_eq_ok.mp htext
    have hlt := sprintf_lt hprint
    rw [← length_sprintf hprint, Nat.zero_add] at hlt
    rw [← length_sprintf hprint]
    exact traceRecords_lt h hlt htext
  | events block => exact traceRecords_lt h hpos htext
  | sync resp => exact traceRecords_lt (e := e) h hpos htext

/-- A log that is traced whatever is in `msg` has printed something. -/
theorem trace_printed {log : EventLog} (h : HasRecords e records)
    (htrace : ∀ msg : List UInt8, msg.length = 2048 → ∃ text, log.trace e msg = .ok text) :
    log.head ≠ [] ∨ records ≠ [] := by
  by_contra hnone
  obtain ⟨hhead, hrecords⟩ := not_or.mp hnone
  obtain rfl := not_not.mp hrecords
  have hnul : 0 ∉ List.replicate 2048 (1 : UInt8) := by
    intro hmem
    exact absurd (List.eq_of_mem_replicate hmem) (by decide)
  obtain ⟨text, htext⟩ := htrace _ List.length_replicate
  have hempty := traceRecords_empty h (List.replicate 2048 1)
  cases log with
  | dialend nThreadNo => exact hhead (by simp [EventLog.head, dialendLine])
  | events block => exact str_unterminated hnul (hempty.symm.trans htext)
  | sync resp => exact str_unterminated hnul (hempty.symm.trans htext)

/-- What is printed stays inside `msg` and is a string, whatever has been in `msg`. -/
theorem trace_iff {log : EventLog} (h : HasRecords e records) :
    (∀ msg : List UInt8, msg.length = 2048 → ∃ text, log.trace e msg = .ok text) ↔
      log.Fits records := by
  constructor
  · intro htrace
    obtain ⟨text, htext⟩ := htrace (List.replicate 2048 0) List.length_replicate
    exact ⟨trace_printed h htrace, trace_lt h List.length_replicate htext⟩
  · intro hfits msg hmsg
    exact ⟨_, trace_of_fits h hfits hmsg⟩

end Print

-- ════════════════════════════════════════════════════════════════════════
-- Messages
-- ════════════════════════════════════════════════════════════════════════

section Copies

variable {m junk : List UInt8} {e : AmiEvents} {log : EventLog}

/-- The log of a text is as long as the text at most, and four blanks for each record but the
first. -/
theorem logLength_le (t : List UInt8) :
    logLength (eventRecords t) ≤ t.length + 4 * ((eventRecords t).length - 1) := by
  have hscan := scanRecords_length none [] t
  rw [Option.elim_none, List.length_nil, Nat.zero_add] at hscan
  exact Nat.add_le_add_right (hscan.trans (by omega)) _

/-- What stands behind the copy of a message is zeroed: the block is new, or that of a response. -/
def EventLog.Zeroed : EventLog → Prop
  | .dialend _ => True
  | .events block => block = {}
  | .sync resp => ResponseBlock resp.responses

theorem copy_zeroed (log : EventLog) (junk : List UInt8) (hm : m.length < 4096)
    (hzeroed : log.Zeroed) :
    ∃ z, (log.copy m junk).event = cstr m ++ 0 :: z ∧ ∀ b ∈ z, b = 0 := by
  obtain ⟨z, hjob, hz⟩ := strncpy_job junk hm
  cases log with
  | dialend nThreadNo =>
    rw [EventLog.copy, hjob]
    exact ⟨z, rfl, hz⟩
  | events block =>
    obtain rfl : block = {} := hzeroed
    rw [EventLog.copy, hjob]
    exact ⟨z, rfl, hz⟩
  | sync resp =>
    exact ⟨_, strncpy_block hzeroed hm, fun b hb => List.eq_of_mem_replicate hb⟩

/-- In such a block the strings are those of the message. -/
theorem scanRecords_copy (log : EventLog) (junk : List UInt8) (hm : m.length < 4096)
    (hzeroed : log.Zeroed) :
    scanRecords none [] (log.copy m junk).event = scanRecords none [] (cstr m) := by
  obtain ⟨z, hcopy, hz⟩ := copy_zeroed log junk hm hzeroed
  rw [hcopy, scanRecords_text (not_mem_cstr m) hz]

theorem slots_length_copy (log : EventLog) (junk : List UInt8) (hzeroed : log.Zeroed) :
    (log.copy m junk).slots.length = 200 := by
  cases log with
  | dialend nThreadNo => exact List.length_replicate
  | events block =>
    obtain rfl : block = {} := hzeroed
    exact List.length_replicate
  | sync resp => exact hzeroed.slots_length

/-- The log of a message that is short enough fits, whatever its records are. -/
theorem message_fits (junk : List UInt8) (hm : m.length < 4096) (hzeroed : log.Zeroed)
    (hsome : log.head ≠ [] ∨ eventRecords (cstr m) ≠ [])
    (hcount : (eventRecords (cstr m)).length ≤ 100)
    (hshort : log.head.length + m.length + 396 < 2048) :
    log.Fits (eventRecords (log.copy m junk).event) := by
  have hrecords : eventRecords (log.copy m junk).event = eventRecords (cstr m) :=
    congrArg withValue (scanRecords_copy log junk hm hzeroed)
  have hlen := logLength_le (cstr m)
  have hcstr := (cstr_sublist m).length_le
  rw [hrecords]
  exact ⟨hsome, by omega⟩

/-- A message that meets the checks of the parser is parsed, and its log depends on its own records
alone. -/
theorem message_log_iff (log : EventLog) (junk : List UInt8) (hm : m.length < 4096)
    (hzeroed : log.Zeroed) (ht : Parsable (cstr m)) :
    ∃ e, (log.copy m junk).parseAmievent = .ok e ∧
      ((∀ msg : List UInt8, msg.length = 2048 → ∃ text, log.trace e msg = .ok text) ↔
        log.Fits (eventRecords (cstr m))) := by
  have hslots : (log.copy m junk).slots.length = 200 := slots_length_copy log junk hzeroed
  have hscan := scanRecords_copy log junk hm hzeroed
  have hcount : (scanRecords none [] (log.copy m junk).event).length ≤ 100 := by
    obtain ⟨n, hn, hkeys⟩ := ht
    rw [hscan, scanRecords_count none (not_mem_cstr m) hkeys]
    exact hn
  obtain ⟨z, hcopy, -⟩ := copy_zeroed log junk hm hzeroed
  obtain ⟨e, -, -, -, he, -⟩ := parseChecked_ok _ hcopy (not_mem_cstr m) ht hslots
  have hparse := parseAmievent_of_checked he
  have hrecords := parseAmievent_records hslots hcount hparse
  rw [eventRecords, hscan] at hrecords
  exact ⟨e, hparse, trace_iff hrecords⟩

/-- A message is parsed, and its lines are what is logged. -/
theorem parse_copy (log : EventLog) (line : AmiLine) (lines : List AmiLine) (junk : List UInt8)
    (hzeroed : log.Zeroed) (hm : (amiMessage (line :: lines)).length < 4096)
    (hn : (line :: lines).length ≤ 100) :
    ∃ e, (log.copy (amiMessage (line :: lines)) junk).parseAmievent = .ok e ∧
      scanRecords none [] (log.copy (amiMessage (line :: lines)) junk).event =
        (line :: lines).map fun line => (line.key, some line.value) := by
  obtain ⟨z, hcopy, -⟩ := copy_zeroed log junk hm hzeroed
  rw [cstr_of_noNul (amiMessage_noNul _)] at hcopy
  exact ⟨_, parseAmievent_message hcopy hn (slots_length_copy log junk hzeroed), by
    rw [hcopy, scanRecords_message]⟩

/-- The log of a message with up to 100 records, begun ones included, stays inside `msg` and is
traced as a string if and only if it fits. -/
theorem eventLog_iff (log : EventLog) (m junk : List UInt8) (e : AmiEvents)
    (hslots : (log.copy m junk).slots.length = 200)
    (hcount : (scanRecords none [] (log.copy m junk).event).length ≤ 100)
    (he : (log.copy m junk).parseAmievent = .ok e) :
    (∀ msg : List UInt8, msg.length = 2048 → ∃ text, log.trace e msg = .ok text) ↔
      log.Fits (eventRecords (log.copy m junk).event) :=
  trace_iff (parseAmievent_records hslots hcount he)

/-- `Event: DialEnd`. -/
def dialEndLine : AmiLine where
  key := [69, 118, 101, 110, 116]
  text := [32, 68, 105, 97, 108, 69, 110, 100]
  key_ne := by decide
  key_clean := by simp
  text_clean := by simp

theorem eventLog_iff_dialEnd :
    ∃ e, ((EventLog.dialend 0).copy (amiMessage [dialEndLine]) []).parseAmievent = .ok e ∧
      ∀ msg : List UInt8, msg.length = 2048 →
        ∃ text, (EventLog.dialend 0).trace e msg = .ok text := by
  obtain ⟨e, he, hscan⟩ := parse_copy (.dialend 0) dialEndLine [] [] trivial (by decide)
    (by decide)
  refine ⟨e, he, (eventLog_iff (.dialend 0) (amiMessage [dialEndLine]) [] e
    (slots_length_copy (.dialend 0) [] trivial) (by rw [hscan]; decide) he).mpr ?_⟩
  rw [eventRecords, hscan]
  decide

/-- `DestChannel:` and a name of 2048 bytes. -/
def longLine : AmiLine where
  key := textDestChannel
  text := 32 :: List.replicate 2048 120
  key_ne := by decide
  key_clean := by simp [textDestChannel]
  text_clean := by
    intro b hb
    obtain rfl | hb := List.mem_cons.mp hb
    · decide
    · rw [List.eq_of_mem_replicate hb]
      decide

theorem longLine_value : longLine.value = List.replicate 2048 120 := by
  change (32 :: List.replicate 2048 (120 : UInt8)).dropWhile (· = 32) = _
  rw [List.dropWhile_cons_of_pos (by simp), List.dropWhile_replicate]
  rfl

/-- The event with that line has two records, and its log does not stay inside `msg`. -/
theorem dialend_overflows :
    ∃ e, ((EventLog.dialend 0).copy (amiMessage [dialEndLine, longLine]) []).parseAmievent = .ok e ∧
      (amiMessage [dialEndLine, longLine]).length < 4096 ∧
      (scanRecords none []
        ((EventLog.dialend 0).copy (amiMessage [dialEndLine, longLine]) []).event).length ≤ 100 ∧
      ∀ msg : List UInt8, msg.length = 2048 →
        ∀ text, (EventLog.dialend 0).trace e msg ≠ .ok text := by
  have hm : (amiMessage [dialEndLine, longLine]).length < 4096 := by
    have htext : longLine.text.length = 2049 := by
      rw [longLine, List.length_cons, List.length_replicate]
    rw [amiMessage_cons, amiMessage_cons, List.length_append, List.length_append,
      AmiLine.length_bytes, AmiLine.length_bytes, htext]
    decide
  obtain ⟨e, he, hscan⟩ := parse_copy (.dialend 0) dialEndLine [longLine] [] trivial hm
    (by decide)
  have hcount : (scanRecords none []
      ((EventLog.dialend 0).copy (amiMessage [dialEndLine, longLine]) []).event).length ≤ 100 := by
    rw [hscan]
    decide
  have hrecords := parseAmievent_records
    (slots_length_copy (.dialend 0) [] trivial) hcount he
  refine ⟨e, he, hm, hcount, fun msg hmsg text htext => ?_⟩
  have hlt := trace_lt hrecords hmsg htext
  have hvalue : (longLine.value).length = 2048 := by
    rw [longLine_value, List.length_replicate]
  have hmem : (longLine.key, longLine.value) ∈
      [dialEndLine, longLine].map fun line => (line.key, line.value) :=
    List.mem_map_of_mem (List.mem_cons_of_mem _ (List.mem_cons_self ..))
  have hle := value_le_recordsLength hmem
  rw [eventRecords, hscan, withValue_lines, logLength] at hlt
  change longLine.value.length ≤ _ at hle
  omega

end Copies

end Tst
