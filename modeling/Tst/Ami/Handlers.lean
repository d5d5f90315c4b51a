import Tst.Ami.EventLog

/-!
# The event handlers

The functions that `g_process` may name. All but one log the records of their event. The handler
of user events writes into its job: it puts `'0'` for every `'.'` of the `Uniqueid`.

## Main definitions

- `EventProc` — a handler, and `EventProc.call` — a call of it
- `eventUserevent` — the handler that writes into the block of the event
- `zeroUniqueid` — what it makes of the records

## Main results

- `eventUserevent_lines` — it changes the value of one line, and nothing else
- `EventProc.call_ok`, `EventProc.call_overruns` — what a call leaves
-/

namespace Tst

open Bytes CString

/-- Texts of the source. -/
def textUserEvent : List UInt8 := [85, 115, 101, 114, 69, 118, 101, 110, 116]
def textUniqueid : List UInt8 := [85, 110, 105, 113, 117, 101, 105, 100]
def textHangup : List UInt8 := [72, 97, 110, 103, 117, 112]
def textUserCallee : List UInt8 := [67, 97, 108, 108, 101, 101]

namespace AmiEvents

/-- The loop of `get_amivalue()`, with the pointer that it returns: none is that of its own
empty string. -/
def amivalueAtLoop (events : AmiEvents) (key : List UInt8) : Nat → Except Fault (Option Nat)
  | 0 => .ok none
  | n + 1 => do
    let i := events.recCount - (n + 1)
    if (← events.strSlot i) = key then return some (← deref (events.slots.getD (100 + i) none))
    else amivalueAtLoop events key n

/-- `get_amivalue()`, with the pointer that it returns. -/
def amivalueAt (events : AmiEvents) (key : List UInt8) : Except Fault (Option Nat) :=
  amivalueAtLoop events key events.recCount

end AmiEvents

/-- `for (p = szUniqueid; *p; p++) if (*p == '.') *p = '0';` -/
def zeroDotsLoop : Nat → List UInt8 → Nat → Except Fault (List UInt8)
  | 0, _, _ => .error .endless
  | fuel + 1, event, p => do
    let b ← load event p
    if b = 0 then return event
    else if b = 46 then zeroDotsLoop fuel (← store event p 48) (p + 1)
    else zeroDotsLoop fuel event (p + 1)

/-- What a handler leaves: the block of its event, and the string that it traces. -/
structure EventResult where
  events : AmiEvents
  traced : Option (List UInt8) := none

/-- `event_hangup()`, with what is in `msg` of `logging_events()` before it. -/
def eventHangup (events : AmiEvents) (msg : List UInt8) : Except Fault EventResult := do
  return { events, traced := some (← loggingEvents events msg) }

/-- `event_dialbegin()`. -/
def eventDialbegin (events : AmiEvents) (msg : List UInt8) : Except Fault EventResult :=
  eventHangup events msg

/-- `event_varset()`. -/
def eventVarset (events : AmiEvents) (msg : List UInt8) : Except Fault EventResult :=
  eventHangup events msg

/-- `event_userevent()`. It throws for every name but `DTMF_START`, and catches what it has thrown
without a trace. -/
def eventUserevent (events : AmiEvents) : Except Fault EventResult := do
  let eventName ← events.getAmivalue textUserEvent
  let _ ← events.getAmivalue textChannel
  let uniqueid ← events.amivalueAt textUniqueid
  let _ ← events.getAmivalue (if eventName = textHangup then textUserCallee else textExten)
  let _ ← events.getAmivalue textCallerIDNum
  match uniqueid with
  | none => return { events }
  | some p =>
    return { events := { events with
      event := ← zeroDotsLoop (events.event.length + 1) events.event p } }

/-- The handlers. -/
inductive EventProc
  | hangup | dialbegin | varset | userevent | dialend
  deriving DecidableEq, Repr

/-- A call in the thread of that number, with what is in the `msg` of its frame. -/
def EventProc.call (func : EventProc) (events : AmiEvents) (nThreadNo : Int) (msg : List UInt8) :
    Except Fault EventResult :=
  match func with
  | hangup => eventHangup events msg
  | dialbegin => eventDialbegin events msg
  | varset => eventVarset events msg
  | userevent => eventUserevent events
  | dialend => do
    return { events, traced := some (← eventDialend events nThreadNo msg) }

/-- The log of a handler. -/
def EventProc.log (func : EventProc) (nThreadNo : Int) : Option EventLog :=
  match func with
  | hangup => some (.events {})
  | dialbegin => some (.events {})
  | varset => some (.events {})
  | userevent => none
  | dialend => some (.dialend nThreadNo)

/-- The log is too long for `msg`. -/
def EventProc.Overruns (func : EventProc) (nThreadNo : Int)
    (records : List (List UInt8 × List UInt8)) : Prop :=
  ∃ log ∈ func.log nThreadNo, ¬ log.Fits records

instance (func : EventProc) (nThreadNo : Int) (records : List (List UInt8 × List UInt8)) :
    Decidable (func.Overruns nThreadNo records) :=
  inferInstanceAs (Decidable (∃ log ∈ func.log nThreadNo, ¬ log.Fits records))

/-- A byte of a `Uniqueid`. -/
def zeroDot (b : UInt8) : UInt8 := if b = 46 then 48 else b

/-- The value of the first `Uniqueid` is written over. -/
def zeroUniqueid : List (List UInt8 × List UInt8) → List (List UInt8 × List UInt8)
  | [] => []
  | record :: records =>
    if record.1 = textUniqueid then (record.1, record.2.map zeroDot) :: records
    else record :: zeroUniqueid records

/-- The records that a handler leaves in the block of its event. -/
def EventProc.leaves (func : EventProc) (records : List (List UInt8 × List UInt8)) :
    List (List UInt8 × List UInt8) :=
  if func = userevent then zeroUniqueid records else records

/-- The records of a message. -/
def lineRecords (lines : List AmiLine) : List (List UInt8 × List UInt8) :=
  lines.map fun line => (line.key, line.value)

/-- The block of a job with the message that consists of these lines; `r` is behind its NUL. -/
def AmiEvents.ofLines (lines : List AmiLine) (r : List UInt8) : AmiEvents where
  event := lines.flatMap AmiLine.marked ++ 13 :: 10 :: 0 :: r
  recCount := lines.length
  slots := recordSlots lines 0 0 (List.replicate 200 none)

-- ════════════════════════════════════════════════════════════════════════
-- The block of a message
-- ════════════════════════════════════════════════════════════════════════

section Block

variable {lines : List AmiLine} {r : List UInt8}

/-- The parser leaves that block. -/
theorem parseAmievent_ofLines {events : AmiEvents} (hne : lines ≠ [])
    (hs : events.event = amiMessage lines ++ 0 :: r) (hn : lines.length ≤ 100)
    (hslots : events.slots = List.replicate 200 none) :
    events.parseAmievent = .ok (.ofLines lines r) := by
  obtain ⟨line, lines, rfl⟩ := List.exists_cons_of_ne_nil hne
  rw [parseAmievent_message hs hn (by rw [hslots, List.length_replicate]), hslots]
  rfl

theorem hasRecords_ofLines (hne : lines ≠ []) (hn : lines.length ≤ 100) (r : List UInt8) :
    HasRecords (.ofLines lines r) (lineRecords lines) := by
  have hparse : ({ event := amiMessage lines ++ 0 :: r } : AmiEvents).parseAmievent =
      .ok (.ofLines lines r) := parseAmievent_ofLines hne rfl hn rfl
  have hscan := scanRecords_message lines r
  have hrecords := parseAmievent_records List.length_replicate
    (by rw [hscan, List.length_map]; exact hn) hparse
  rwa [eventRecords, hscan, withValue_lines] at hrecords

end Block

-- ════════════════════════════════════════════════════════════════════════
-- The handler of user events
-- ════════════════════════════════════════════════════════════════════════

theorem zeroDot_eq_iff {b c : UInt8} (hdot : c ≠ 46) (hzero : c ≠ 48) : zeroDot b = c ↔ b = c := by
  rw [zeroDot]
  split
  · next h =>
    constructor
    · exact fun heq => absurd heq.symm hzero
    · exact fun heq => absurd (heq.symm.trans h) hdot
  · exact Iff.rfl

/-- The line with that value. -/
def AmiLine.zeroDots (line : AmiLine) : AmiLine where
  key := line.key
  text := line.text.map zeroDot
  key_ne := line.key_ne
  key_clean := line.key_clean
  text_clean := by
    intro c hc
    obtain ⟨b, hb, rfl⟩ := List.mem_map.mp hc
    obtain ⟨h0, h13, h10⟩ := line.text_clean b hb
    exact ⟨fun h => h0 ((zeroDot_eq_iff (by decide) (by decide)).mp h),
      fun h => h13 ((zeroDot_eq_iff (by decide) (by decide)).mp h),
      fun h => h10 ((zeroDot_eq_iff (by decide) (by decide)).mp h)⟩

/-- The message with that line. -/
def zeroUniqueidLine : List AmiLine → List AmiLine
  | [] => []
  | line :: lines =>
    if line.key = textUniqueid then line.zeroDots :: lines else line :: zeroUniqueidLine lines

/-- Where the value of the first line with that key begins. -/
def valuePos (key : List UInt8) : List AmiLine → Nat → Option Nat
  | [], _ => none
  | line :: lines, off =>
    if line.key = key then some (off + line.valueAt)
    else valuePos key lines (off + line.bytes.length)

section Userevent

variable {line : AmiLine} {lines x : List AmiLine} {a r v key : List UInt8} {p fuel : Nat}

theorem isBlank_zeroDot (b : UInt8) : decide (zeroDot b = 32) = decide (b = 32) :=
  decide_eq_decide.mpr (zeroDot_eq_iff (by decide) (by decide))

theorem zeroDots_blanks (line : AmiLine) : line.zeroDots.blanks = line.blanks := by
  have hmap : (line.text.map zeroDot).takeWhile (· = 32) =
      (line.text.takeWhile (· = 32)).map zeroDot := by
    rw [List.takeWhile_map]
    congr 2
    funext b
    exact isBlank_zeroDot b
  have hsame : (line.text.takeWhile (· = 32)).map zeroDot = line.text.takeWhile (· = 32) := by
    refine List.map_congr_left (g := id) (fun b hb => ?_) |>.trans (List.map_id _)
    have hall := List.all_takeWhile (l := line.text) (p := fun b => decide (b = 32))
    have hblank : b = 32 := of_decide_eq_true (List.all_eq_true.mp hall b hb)
    rw [hblank]
    rfl
  exact hmap.trans hsame

theorem zeroDots_value (line : AmiLine) : line.zeroDots.value = line.value.map zeroDot := by
  change (line.text.map zeroDot).dropWhile (· = 32) = _
  rw [List.dropWhile_map, AmiLine.value]
  congr 2
  funext b
  exact isBlank_zeroDot b

theorem length_zeroDots (line : AmiLine) : line.zeroDots.bytes.length = line.bytes.length := by
  rw [AmiLine.length_bytes, AmiLine.length_bytes]
  change (line.text.map zeroDot).length + 1 + line.key.length + 2 = _
  rw [List.length_map]

theorem valueAt_zeroDots (line : AmiLine) : line.zeroDots.valueAt = line.valueAt := by
  rw [AmiLine.valueAt, zeroDots_blanks]
  rfl

/-- The pointers to the records stay the same. -/
theorem recordSlots_zeroUniqueidLine (lines : List AmiLine) (off n : Nat)
    (slots : List (Option Nat)) :
    recordSlots (zeroUniqueidLine lines) off n slots = recordSlots lines off n slots := by
  induction lines generalizing off n slots with
  | nil => rfl
  | cons line lines ih =>
    rw [zeroUniqueidLine]
    split
    · rw [recordSlots, recordSlots, length_zeroDots, valueAt_zeroDots]
    · rw [recordSlots, recordSlots, ih]

theorem length_zeroUniqueidLine (lines : List AmiLine) :
    (zeroUniqueidLine lines).length = lines.length := by
  induction lines with
  | nil => rfl
  | cons line lines ih =>
    rw [zeroUniqueidLine]
    split
    · rfl
    · rw [List.length_cons, List.length_cons, ih]

theorem lineRecords_zeroUniqueidLine (lines : List AmiLine) :
    lineRecords (zeroUniqueidLine lines) = zeroUniqueid (lineRecords lines) := by
  induction lines with
  | nil => rfl
  | cons line lines ih =>
    rw [zeroUniqueidLine]
    change _ = zeroUniqueid ((line.key, line.value) :: lineRecords lines)
    rw [zeroUniqueid]
    split
    · change (line.key, line.zeroDots.value) :: lineRecords lines = _
      rw [zeroDots_value]
    · change (line.key, line.value) :: lineRecords (zeroUniqueidLine lines) = _
      rw [ih]

/-- The loop over a string. -/
theorem zeroDotsLoop_eq (a v r : List UInt8) (fuel : Nat) (hv : 0 ∉ v) (hfuel : v.length < fuel) :
    zeroDotsLoop fuel (a ++ (v ++ 0 :: r)) a.length = .ok (a ++ (v.map zeroDot ++ 0 :: r)) := by
  induction v generalizing a fuel with
  | nil =>
    obtain ⟨fuel, rfl⟩ : ∃ n, fuel = n + 1 := ⟨fuel - 1, by omega⟩
    rw [List.nil_append, zeroDotsLoop, load_at rfl rfl, ok_bind, if_pos rfl]
    rfl
  | cons b v ih =>
    obtain ⟨fuel, rfl⟩ : ∃ n, fuel = n + 1 := ⟨fuel - 1, by omega⟩
    obtain ⟨h0, hv⟩ := noNul_cons hv
    have hlt : v.length < fuel := by
      rw [List.length_cons] at hfuel
      omega
    have hnext := ih (a ++ [zeroDot b]) fuel hv hlt
    rw [List.length_append, List.length_singleton, List.append_assoc, List.append_assoc] at hnext
    rw [List.cons_append, zeroDotsLoop, load_at rfl rfl, ok_bind, if_neg h0]
    by_cases hdot : b = 46
    · have hzero : zeroDot b = 48 := if_pos hdot
      rw [hzero] at hnext
      rw [if_pos hdot, store_at rfl rfl, ok_bind, List.map_cons, hzero]
      exact hnext
    · have hsame : zeroDot b = b := if_neg hdot
      rw [hsame] at hnext
      rw [if_neg hdot, List.map_cons, hsame]
      exact hnext

/-- The value of a line and its NUL. -/
theorem marked_value (line : AmiLine) :
    line.marked = line.key ++ 0 :: line.blanks ++ (line.value ++ [0, 0]) := by
  have hsplit : line.blanks ++ line.value = line.text := List.takeWhile_append_dropWhile
  rw [AmiLine.marked, ← hsplit]
  simp only [List.append_assoc, List.cons_append]

theorem value_noNul (line : AmiLine) : 0 ∉ line.value := fun h =>
  (line.text_clean 0 ((List.dropWhile_suffix _).subset h)).1 rfl

theorem zeroDotsLoop_line (a : List UInt8) (line : AmiLine) (r : List UInt8) (fuel : Nat)
    (hfuel : line.text.length < fuel) :
    zeroDotsLoop fuel (a ++ (line.marked ++ r)) (a.length + line.valueAt) =
      .ok (a ++ (line.zeroDots.marked ++ r)) := by
  have hle : line.value.length ≤ line.text.length := (List.dropWhile_suffix _).length_le
  have hloop := zeroDotsLoop_eq (a ++ (line.key ++ 0 :: line.blanks)) line.value (0 :: r) fuel
    (value_noNul line) (hle.trans_lt hfuel)
  have hpos : (a ++ (line.key ++ 0 :: line.blanks)).length = a.length + line.valueAt := by
    rw [AmiLine.valueAt]
    simp only [List.length_append, List.length_cons]
    omega
  have hbefore : a ++ (line.marked ++ r) =
      a ++ (line.key ++ 0 :: line.blanks) ++ (line.value ++ 0 :: 0 :: r) := by
    rw [marked_value]
    simp only [List.append_assoc, List.cons_append, List.nil_append]
  have hafter : a ++ (line.zeroDots.marked ++ r) =
      a ++ (line.key ++ 0 :: line.blanks) ++ (line.value.map zeroDot ++ 0 :: 0 :: r) := by
    rw [marked_value, zeroDots_blanks, zeroDots_value]
    simp only [List.append_assoc, List.cons_append, List.nil_append]
    rfl
  rw [hbefore, hafter, ← hpos]
  exact hloop

/-- Without a `Uniqueid` nothing is written. -/
theorem zeroUniqueidLine_none (off : Nat) (h : valuePos textUniqueid lines off = none) :
    zeroUniqueidLine lines = lines := by
  induction lines generalizing off with
  | nil => rfl
  | cons line lines ih =>
    rw [valuePos] at h
    rw [zeroUniqueidLine]
    split at h
    · exact absurd h (by simp)
    · next hkey => rw [if_neg hkey, ih _ h]

/-- The loop over the `Uniqueid` of a message. -/
theorem zeroDotsLoop_lines (lines : List AmiLine) (a r : List UInt8) (p fuel : Nat)
    (hp : valuePos textUniqueid lines a.length = some p)
    (hfuel : (lines.flatMap AmiLine.bytes).length < fuel) :
    zeroDotsLoop fuel (a ++ (lines.flatMap AmiLine.marked ++ r)) p =
      .ok (a ++ ((zeroUniqueidLine lines).flatMap AmiLine.marked ++ r)) := by
  induction lines generalizing a fuel with
  | nil => exact absurd hp (by simp [valuePos])
  | cons line lines ih =>
    rw [List.flatMap_cons, List.length_append] at hfuel
    rw [valuePos] at hp
    rw [zeroUniqueidLine]
    split at hp
    · next hkey =>
      obtain rfl := Option.some.inj hp
      have htext : line.text.length < fuel := by
        rw [AmiLine.length_bytes] at hfuel
        omega
      rw [if_pos hkey, List.flatMap_cons, List.flatMap_cons, List.append_assoc, List.append_assoc]
      exact zeroDotsLoop_line a line _ fuel htext
    · next hkey =>
      have hlen : a.length + line.bytes.length = (a ++ line.marked).length := by
        rw [List.length_append, AmiLine.length_marked]
      rw [hlen] at hp
      have hrest := ih (a ++ line.marked) fuel hp (by omega)
      rw [List.append_assoc, List.append_assoc] at hrest
      rw [if_neg hkey, List.flatMap_cons, List.flatMap_cons, List.append_assoc, List.append_assoc]
      exact hrest

/-- The pointer that `get_amivalue()` returns, with `x` behind it and `lines` to come. -/
theorem amivalueAtLoop_lines (key : List UInt8) (lines x : List AmiLine)
    (hn : (x ++ lines).length ≤ 100) :
    (AmiEvents.ofLines (x ++ lines) r).amivalueAtLoop key lines.length =
      .ok (valuePos key lines (x.flatMap AmiLine.bytes).length) := by
  induction lines generalizing x with
  | nil => rfl
  | cons line lines ih =>
    have hi : (AmiEvents.ofLines (x ++ line :: lines) r).recCount - (lines.length + 1) =
        x.length := by
      change (x ++ line :: lines).length - (lines.length + 1) = x.length
      rw [List.length_append, List.length_cons]
      omega
    obtain ⟨hkeyStr, -⟩ := strSlot_line (AmiEvents.ofLines (x ++ line :: lines) r) x line lines
      (List.replicate 200 none) rfl rfl hn List.length_replicate
    obtain ⟨-, hslot⟩ := recordSlots_at x line lines 0 0 (List.replicate 200 none)
      (by rw [Nat.zero_add]; exact hn) List.length_replicate
    rw [Nat.zero_add, Nat.zero_add] at hslot
    have hvalue : (AmiEvents.ofLines (x ++ line :: lines) r).slots.getD (100 + x.length) none =
        some ((x.flatMap AmiLine.bytes).length + line.valueAt) := by
      rw [List.getD_eq_getElem?_getD]
      change ((recordSlots (x ++ line :: lines) 0 0 _)[100 + x.length]?).getD none = _
      rw [hslot]
      rfl
    rw [List.length_cons, AmiEvents.amivalueAtLoop, hi, hkeyStr, ok_bind, valuePos]
    split
    · rw [hvalue]
      rfl
    · have hnext : x ++ line :: lines = x ++ [line] ++ lines := List.append_cons ..
      have hrest := ih (x ++ [line]) (hnext ▸ hn)
      rw [← hnext, List.flatMap_append, List.length_append, List.flatMap_singleton] at hrest
      exact hrest

/-- The handler leaves the message with that line, and what is behind the message. -/
theorem eventUserevent_lines (hne : lines ≠ []) (hn : lines.length ≤ 100) (r : List UInt8) :
    eventUserevent (.ofLines lines r) = .ok { events := .ofLines (zeroUniqueidLine lines) r } := by
  have hrecords := hasRecords_ofLines hne hn r
  obtain ⟨eventName, heventName⟩ := hrecords.getAmivalue textUserEvent
  obtain ⟨channel, hchannel⟩ := hrecords.getAmivalue textChannel
  obtain ⟨exten, hexten⟩ :=
    hrecords.getAmivalue (if eventName = textHangup then textUserCallee else textExten)
  obtain ⟨callerIDNum, hcallerIDNum⟩ := hrecords.getAmivalue textCallerIDNum
  have hat : (AmiEvents.ofLines lines r).amivalueAt textUniqueid =
      .ok (valuePos textUniqueid lines 0) := amivalueAtLoop_lines textUniqueid lines [] hn
  rw [eventUserevent, heventName, ok_bind, hchannel, ok_bind, hat, ok_bind, hexten, ok_bind,
    hcallerIDNum, ok_bind]
  cases hpos : valuePos textUniqueid lines 0 with
  | none =>
    rw [zeroUniqueidLine_none 0 hpos]
    rfl
  | some p =>
    have hfuel : (lines.flatMap AmiLine.bytes).length <
        (AmiEvents.ofLines lines r).event.length + 1 := by
      change _ < (lines.flatMap AmiLine.marked ++ _).length + 1
      rw [List.length_append, length_flatMap_marked]
      omega
    have hloop : zeroDotsLoop ((AmiEvents.ofLines lines r).event.length + 1)
        (AmiEvents.ofLines lines r).event p =
          .ok (AmiEvents.ofLines (zeroUniqueidLine lines) r).event :=
      zeroDotsLoop_lines lines [] (13 :: 10 :: 0 :: r) p _ hpos hfuel
    have hblock : ({ AmiEvents.ofLines lines r with
        event := (AmiEvents.ofLines (zeroUniqueidLine lines) r).event } : AmiEvents) =
          .ofLines (zeroUniqueidLine lines) r := by
      simp only [AmiEvents.ofLines, length_zeroUniqueidLine, recordSlots_zeroUniqueidLine]
    change (zeroDotsLoop ((AmiEvents.ofLines lines r).event.length + 1)
      (AmiEvents.ofLines lines r).event p >>= _) = _
    rw [hloop, ok_bind, hblock]
    rfl

end Userevent

-- ════════════════════════════════════════════════════════════════════════
-- A call
-- ════════════════════════════════════════════════════════════════════════

section Call

variable {lines : List AmiLine} {msg : List UInt8} {func : EventProc} {nThreadNo : Int}

/-- A log that is too long is not printed to its end. -/
theorem trace_overruns {log : EventLog} {records : List (List UInt8 × List UInt8)} {e : AmiEvents}
    (h : HasRecords e records) (hne : records ≠ []) (hmsg : msg.length = 2048)
    (hfits : ¬ log.Fits records) : ∃ fault, log.trace e msg = .error fault := by
  cases htrace : log.trace e msg with
  | error fault => exact ⟨fault, rfl⟩
  | ok text => exact absurd ⟨.inr hne, trace_lt h hmsg htrace⟩ hfits

/-- A handler with a log is one call of it. -/
theorem EventProc.call_log {log : EventLog} (hlog : func.log nThreadNo = some log)
    (events : AmiEvents) (msg : List UInt8) :
    func.call events nThreadNo msg =
      (log.trace events msg).map fun text => { events, traced := some text } := by
  cases func with
  | hangup => obtain rfl := Option.some.inj hlog; rfl
  | dialbegin => obtain rfl := Option.some.inj hlog; rfl
  | varset => obtain rfl := Option.some.inj hlog; rfl
  | userevent => cases hlog
  | dialend => obtain rfl := Option.some.inj hlog; rfl

theorem EventProc.log_eq_none : func.log nThreadNo = none ↔ func = .userevent := by
  constructor
  · intro h
    cases func with
    | hangup => cases h
    | dialbegin => cases h
    | varset => cases h
    | userevent => rfl
    | dialend => cases h
  · rintro rfl
    rfl

/-- A call for a message whose log fits. -/
theorem EventProc.call_ok (hne : lines ≠ []) (hn : lines.length ≤ 100) (r : List UInt8)
    (hmsg : msg.length = 2048) (hfits : ¬ func.Overruns nThreadNo (lineRecords lines)) :
    ∃ events, func.call (.ofLines lines r) nThreadNo msg =
        .ok { events
              traced := (func.log nThreadNo).map fun log =>
                log.head ++ logText 0 (lineRecords lines) } ∧
      HasRecords events (func.leaves (lineRecords lines)) := by
  have hrecords := hasRecords_ofLines hne hn r
  cases hlog : func.log nThreadNo with
  | none =>
    obtain rfl := EventProc.log_eq_none.mp hlog
    have hlen := length_zeroUniqueidLine lines
    have hne' : zeroUniqueidLine lines ≠ [] := by
      intro h
      rw [h] at hlen
      exact hne (List.length_eq_zero_iff.mp hlen.symm)
    refine ⟨_, eventUserevent_lines hne hn r, ?_⟩
    rw [EventProc.leaves, if_pos rfl, ← lineRecords_zeroUniqueidLine]
    exact hasRecords_ofLines hne' (hlen.trans_le hn) r
  | some log =>
    have hlogs : log.Fits (lineRecords lines) := by
      by_contra h
      exact hfits ⟨log, hlog, h⟩
    have hother : func ≠ .userevent := by
      intro h
      rw [EventProc.log_eq_none.mpr h] at hlog
      exact absurd hlog (by simp)
    refine ⟨.ofLines lines r, ?_, ?_⟩
    · rw [EventProc.call_log hlog, trace_of_fits hrecords hlogs hmsg]
      rfl
    · rw [EventProc.leaves, if_neg hother]
      exact hrecords

/-- A call for a message whose log does not fit. -/
theorem EventProc.call_overruns (hne : lines ≠ []) (hn : lines.length ≤ 100) (r : List UInt8)
    (hmsg : msg.length = 2048) (hover : func.Overruns nThreadNo (lineRecords lines)) :
    ∃ fault, func.call (.ofLines lines r) nThreadNo msg = .error fault := by
  obtain ⟨log, hlog, hfits⟩ := hover
  have hrecords : lineRecords lines ≠ [] := fun h => hne (List.map_eq_nil_iff.mp h)
  obtain ⟨fault, htrace⟩ :=
    trace_overruns (hasRecords_ofLines hne hn r) hrecords hmsg hfits
  refine ⟨fault, ?_⟩
  rw [EventProc.call_log hlog, htrace]
  rfl

end Call

end Tst
