import Tst.Ami.Event

/-!
# The records of a message

A message is a sequence of lines `Key: Value`, and an empty line. The parser leaves a table
of pointers to the keys and the values. It skips a byte behind every line, and it needs a NUL
behind the message.

## Main definitions

- `AmiLine` — a line
- `amiMessage` — the bytes of a message

## Main results

- `parseAmievent_message` — a message of up to 100 lines is parsed
- `parsed_message` — its first record, and that every key can be looked up
-/

namespace Tst

open Bytes CString

/-- A line of a message: the key, and what stands behind the `:`. -/
structure AmiLine where
  key : List UInt8
  text : List UInt8
  key_ne : key ≠ []
  key_clean : ∀ b ∈ key, b ≠ 0 ∧ b ≠ 58 ∧ b ≠ 13 ∧ b ≠ 10
  text_clean : ∀ b ∈ text, b ≠ 0 ∧ b ≠ 13 ∧ b ≠ 10

namespace AmiLine

def bytes (line : AmiLine) : List UInt8 := line.key ++ 58 :: (line.text ++ [13, 10])

/-- The line as the parser leaves it. -/
def marked (line : AmiLine) : List UInt8 := line.key ++ 0 :: (line.text ++ [0, 0])

/-- The blanks before the value. -/
def blanks (line : AmiLine) : List UInt8 := line.text.takeWhile (· = 32)

def value (line : AmiLine) : List UInt8 := line.text.dropWhile (· = 32)

/-- Where the value begins. -/
def valueAt (line : AmiLine) : Nat := line.key.length + 1 + line.blanks.length

theorem length_marked (line : AmiLine) : line.marked.length = line.bytes.length := by
  simp only [marked, bytes, List.length_append, List.length_cons]

end AmiLine

/-- The bytes of a message. -/
def amiMessage (lines : List AmiLine) : List UInt8 := lines.flatMap AmiLine.bytes ++ [13, 10]

/-- The table with the records of these lines, the first of them as record `n` at `off`. -/
def recordSlots : List AmiLine → Nat → Nat → List (Option Nat) → List (Option Nat)
  | [], _, _, slots => slots
  | line :: lines, off, n, slots =>
    recordSlots lines (off + line.bytes.length) (n + 1)
      ((slots.set n (some off)).set (100 + n) (some (off + line.valueAt)))

-- ════════════════════════════════════════════════════════════════════════
-- The loop over one line
-- ════════════════════════════════════════════════════════════════════════

section Loop

variable {events : AmiEvents} {a k t r : List UInt8} {p fuel : Nat} {start : Option Nat}

/-- One byte of a key. -/
theorem parseLoop_keyByte {b : UInt8} (hs : events.event = a ++ b :: r) (hp : p = a.length)
    (h0 : b ≠ 0) (h58 : b ≠ 58) : AmiEvents.parseLoop (fuel + 1) events p start true =
      AmiEvents.parseLoop fuel events (p + 1) start true := by
  rw [AmiEvents.parseLoop, load_at hs hp, ok_bind, if_neg h0, if_pos rfl, if_neg h58]

/-- A key up to its `:`. -/
theorem parseLoop_key (hs : events.event = a ++ (k ++ 58 :: r)) (hp : p = a.length)
    (hk : ∀ b ∈ k, b ≠ 0 ∧ b ≠ 58) :
    AmiEvents.parseLoop (fuel + (k.length + 1)) events p start true =
      events.endKey (p + k.length) start >>= fun e =>
        AmiEvents.parseLoop fuel e (p + k.length + 1) none false := by
  induction k generalizing a p with
  | nil =>
    have h0 : (58 : UInt8) ≠ 0 := by decide
    rw [List.length_nil, AmiEvents.parseLoop, load_at hs hp, ok_bind, if_neg h0, if_pos rfl,
      if_pos rfl]
    rfl
  | cons b k ih =>
    obtain ⟨h0, h58⟩ := hk b (List.mem_cons_self ..)
    have hs' : events.event = a ++ [b] ++ (k ++ 58 :: r) := by
      rw [hs, List.append_assoc]
      rfl
    have hp' : p + 1 = (a ++ [b]).length := length_next hp _
    have hlen : p + (b :: k).length = p + 1 + k.length := by
      rw [List.length_cons]
      omega
    rw [hlen, List.length_cons, ← Nat.add_assoc fuel, parseLoop_keyByte hs hp h0 h58,
      ih hs' hp' fun c hc => hk c (List.mem_cons_of_mem _ hc)]

theorem atLineEnd_byte {b : UInt8} (hs : events.event = a ++ b :: r) (hp : p = a.length)
    (h13 : b ≠ 13) : events.atLineEnd p = .ok false := by
  rw [AmiEvents.atLineEnd, load_at hs hp, ok_bind, if_neg h13]
  rfl

theorem atLineEnd_end (hs : events.event = a ++ 13 :: 10 :: r) (hp : p = a.length) :
    events.atLineEnd p = .ok true := by
  have hs' : events.event = a ++ [13] ++ 10 :: r := by
    rw [hs, List.append_assoc]
    rfl
  have hp' : p + 1 = (a ++ [13]).length := length_next hp _
  rw [AmiEvents.atLineEnd, load_at hs hp, ok_bind, if_pos rfl, load_at hs' hp', ok_bind]
  rfl

/-- The first byte of a value that is not a blank is noted. -/
def noteStart (start : Option Nat) (b : UInt8) (p : Nat) : Option Nat :=
  if start = none ∧ b ≠ 32 then some p else start

/-- One byte of a value. -/
theorem parseLoop_textByte {b : UInt8} (hs : events.event = a ++ b :: r) (hp : p = a.length)
    (h0 : b ≠ 0) (h13 : b ≠ 13) : AmiEvents.parseLoop (fuel + 1) events p start false =
      AmiEvents.parseLoop fuel events (p + 1) (noteStart start b p) false := by
  rw [AmiEvents.parseLoop, load_at hs hp, ok_bind, if_neg h0, if_neg Bool.false_ne_true,
    atLineEnd_byte hs hp h13, ok_bind, if_neg Bool.false_ne_true]
  rfl

/-- The line end behind a value. -/
theorem parseLoop_textEnd (hs : events.event = a ++ 13 :: 10 :: r) (hp : p = a.length) :
    AmiEvents.parseLoop (fuel + 1) events p start false =
      events.endValue p (some (start.getD p)) >>= fun e =>
        AmiEvents.parseLoop fuel e (p + 3) (some (p + 2)) true := by
  have h0 : (13 : UInt8) ≠ 0 := by decide
  have hnote : noteStart start 13 p = some (start.getD p) := by
    cases start with
    | none => rfl
    | some i => rfl
  rw [AmiEvents.parseLoop, load_at hs hp, ok_bind, if_neg h0, if_neg Bool.false_ne_true,
    atLineEnd_end hs hp, ok_bind, if_pos rfl, ← hnote]
  rfl

/-- A value up to its line end; where it begins is noted already. -/
theorem parseLoop_noted {i : Nat} (hs : events.event = a ++ (t ++ 13 :: 10 :: r))
    (hp : p = a.length) (ht : ∀ b ∈ t, b ≠ 0 ∧ b ≠ 13) :
    AmiEvents.parseLoop (fuel + (t.length + 1)) events p (some i) false =
      events.endValue (p + t.length) (some i) >>= fun e =>
        AmiEvents.parseLoop fuel e (p + t.length + 3) (some (p + t.length + 2)) true := by
  induction t generalizing a p with
  | nil => exact parseLoop_textEnd hs hp
  | cons b t ih =>
    obtain ⟨h0, h13⟩ := ht b (List.mem_cons_self ..)
    have hs' : events.event = a ++ [b] ++ (t ++ 13 :: 10 :: r) := by
      rw [hs, List.append_assoc]
      rfl
    have hp' : p + 1 = (a ++ [b]).length := length_next hp _
    have hlen : p + (b :: t).length = p + 1 + t.length := by
      rw [List.length_cons]
      omega
    rw [hlen, List.length_cons, ← Nat.add_assoc fuel, parseLoop_textByte hs hp h0 h13]
    exact ih hs' hp' fun c hc => ht c (List.mem_cons_of_mem _ hc)

/-- A value up to its line end; it begins behind the blanks. -/
theorem parseLoop_text (hs : events.event = a ++ (t ++ 13 :: 10 :: r)) (hp : p = a.length)
    (ht : ∀ b ∈ t, b ≠ 0 ∧ b ≠ 13) :
    AmiEvents.parseLoop (fuel + (t.length + 1)) events p none false =
      events.endValue (p + t.length) (some (p + (t.takeWhile (· = 32)).length)) >>= fun e =>
        AmiEvents.parseLoop fuel e (p + t.length + 3) (some (p + t.length + 2)) true := by
  induction t generalizing a p with
  | nil => exact parseLoop_textEnd hs hp
  | cons b t ih =>
    obtain ⟨h0, h13⟩ := ht b (List.mem_cons_self ..)
    have ht' : ∀ c ∈ t, c ≠ 0 ∧ c ≠ 13 := fun c hc => ht c (List.mem_cons_of_mem _ hc)
    have hs' : events.event = a ++ [b] ++ (t ++ 13 :: 10 :: r) := by
      rw [hs, List.append_assoc]
      rfl
    have hp' : p + 1 = (a ++ [b]).length := length_next hp _
    have hlen : p + (b :: t).length = p + 1 + t.length := by
      rw [List.length_cons]
      omega
    rw [hlen, List.length_cons, ← Nat.add_assoc fuel, parseLoop_textByte hs hp h0 h13]
    by_cases hb : b = 32
    · have hnote : noteStart none b p = none := by simp [noteStart, hb]
      have hblank : p + ((b :: t).takeWhile (· = 32)).length =
          p + 1 + (t.takeWhile (· = 32)).length := by
        rw [List.takeWhile_cons, if_pos (decide_eq_true hb), List.length_cons]
        omega
      rw [hnote, hblank]
      exact ih hs' hp' ht'
    · have hnote : noteStart none b p = some p := by simp [noteStart, hb]
      have hblank : p + ((b :: t).takeWhile (· = 32)).length = p := by
        rw [List.takeWhile_cons, if_neg (by simpa using hb), List.length_nil, Nat.add_zero]
      rw [hnote, hblank]
      exact parseLoop_noted hs' hp' ht'

theorem endKey_at (hs : events.event = a ++ 58 :: r) (hp : p = a.length)
    (hn : events.recCount < events.slots.length) : events.endKey p start =
      .ok { events with
        event := a ++ 0 :: r
        slots := events.slots.set events.recCount start } := by
  rw [AmiEvents.endKey, store_at hs hp, ok_bind]
  exact if_pos hn

theorem endValue_at {i : Nat} (hs : events.event = a ++ 13 :: 10 :: r) (hp : p = a.length)
    (hn : 100 + events.recCount < events.slots.length) : events.endValue p (some i) =
      .ok { event := a ++ 0 :: 0 :: r
            recCount := events.recCount + 1
            slots := events.slots.set (100 + events.recCount) (some i) } := by
  have hs' : a ++ 0 :: 10 :: r = a ++ [0] ++ 10 :: r := by
    rw [List.append_assoc]
    rfl
  have hp' : p + 1 = (a ++ [(0 : UInt8)]).length := length_next hp _
  have hslot : ({ events with event := a ++ 0 :: 0 :: r } : AmiEvents).setSlot
      (100 + events.recCount) (some i) =
      .ok { events with
        event := a ++ 0 :: 0 :: r
        slots := events.slots.set (100 + events.recCount) (some i) } := if_pos hn
  rw [AmiEvents.endValue, store_at hs hp, ok_bind, store_at hs' hp', ok_bind]
  simp only [Option.isSome_some, if_true, List.append_assoc, List.singleton_append, hslot, ok_bind]
  rfl

/-- The table and the text after one line. -/
def AmiEvents.withLine (events : AmiEvents) (a : List UInt8) (line : AmiLine) (r : List UInt8) :
    AmiEvents where
  event := a ++ (line.marked ++ r)
  recCount := events.recCount + 1
  slots := (events.slots.set events.recCount (some a.length)).set (100 + events.recCount)
    (some (a.length + line.valueAt))

/-- One line; its first byte has been passed over. -/
theorem parseLoop_line (line : AmiLine) (hs : events.event = a ++ (line.bytes ++ r))
    (hn : events.recCount < 100) (hslots : events.slots.length = 200) :
    AmiEvents.parseLoop (fuel + (line.text.length + 1) + line.key.length) events (a.length + 1)
        (some a.length) true =
      AmiEvents.parseLoop fuel (events.withLine a line r) (a.length + line.bytes.length + 1)
        (some (a.length + line.bytes.length)) true := by
  obtain ⟨c, k, hkey⟩ := List.exists_cons_of_ne_nil line.key_ne
  have hk : ∀ b ∈ k, b ≠ 0 ∧ b ≠ 58 := by
    intro b hb
    obtain ⟨h0, h58, -⟩ := line.key_clean b (hkey ▸ List.mem_cons_of_mem _ hb)
    exact ⟨h0, h58⟩
  have ht : ∀ b ∈ line.text, b ≠ 0 ∧ b ≠ 13 := by
    intro b hb
    obtain ⟨h0, h13, -⟩ := line.text_clean b hb
    exact ⟨h0, h13⟩
  have hklen : line.key.length = k.length + 1 := by rw [hkey, List.length_cons]
  have hs₁ : events.event = a ++ [c] ++ (k ++ 58 :: (line.text ++ 13 :: 10 :: r)) := by
    rw [hs, AmiLine.bytes, hkey]
    simp only [List.append_assoc, List.cons_append, List.nil_append]
  have hs₁' : events.event = a ++ line.key ++ 58 :: (line.text ++ 13 :: 10 :: r) := by
    rw [hs₁, hkey]
    simp only [List.append_assoc, List.cons_append, List.nil_append]
  have hp₁ : a.length + 1 = (a ++ [c]).length := length_next rfl _
  have hcolon : a.length + 1 + k.length = (a ++ line.key).length := by
    rw [List.length_append, hklen]
    omega
  rw [hklen, parseLoop_key hs₁ hp₁ hk, endKey_at hs₁' hcolon (by omega), ok_bind]
  have hs₂ : a ++ line.key ++ 0 :: (line.text ++ 13 :: 10 :: r) =
      a ++ line.key ++ [0] ++ (line.text ++ 13 :: 10 :: r) := by
    rw [List.append_assoc _ [0]]
    rfl
  have hs₂' : a ++ line.key ++ 0 :: (line.text ++ 13 :: 10 :: r) =
      a ++ line.key ++ [0] ++ line.text ++ 13 :: 10 :: r := by
    rw [hs₂, List.append_assoc _ line.text]
  have hp₂ : a.length + 1 + k.length + 1 = (a ++ line.key ++ [(0 : UInt8)]).length := by
    rw [hcolon]
    simp only [List.length_append, List.length_singleton]
  have hend : a.length + 1 + k.length + 1 + line.text.length =
      (a ++ line.key ++ [(0 : UInt8)] ++ line.text).length := by
    rw [hp₂]
    simp only [List.length_append, List.length_singleton]
  have hroom : 100 + events.recCount <
      (events.slots.set events.recCount (some a.length)).length := by
    rw [List.length_set]
    omega
  rw [parseLoop_text hs₂ hp₂ ht, endValue_at hs₂' hend hroom, ok_bind]
  have hline : line.bytes.length = k.length + 1 + (1 + (line.text.length + 2)) := by
    simp only [AmiLine.bytes, List.length_append, List.length_cons, List.length_nil, hklen]
    omega
  have hevents : ({ event := a ++ line.key ++ [0] ++ line.text ++ 0 :: 0 :: r
                    recCount := events.recCount + 1
                    slots := (events.slots.set events.recCount (some a.length)).set
                      (100 + events.recCount) (some (a.length + 1 + k.length + 1 +
                        (line.text.takeWhile (· = 32)).length)) } : AmiEvents) =
      events.withLine a line r := by
    rw [AmiEvents.withLine, AmiLine.marked, AmiLine.valueAt, AmiLine.blanks, hklen]
    congr 1
    · simp only [List.append_assoc, List.cons_append, List.nil_append]
    · congr 2
      omega
  rw [hevents]
  congr 1
  · omega
  · congr 1
    omega

end Loop

-- ════════════════════════════════════════════════════════════════════════
-- Messages
-- ════════════════════════════════════════════════════════════════════════

section Message

variable {events : AmiEvents} {a r : List UInt8} {line : AmiLine} {lines : List AmiLine}
  {slots : List (Option Nat)} {i n off : Nat}

theorem amiMessage_cons (line : AmiLine) (lines : List AmiLine) :
    amiMessage (line :: lines) = line.bytes ++ amiMessage lines := by
  rw [amiMessage, List.flatMap_cons, List.append_assoc]
  rfl

theorem AmiLine.bytes_noNul (line : AmiLine) : 0 ∉ line.bytes := by
  intro h0
  rw [AmiLine.bytes, List.mem_append, List.mem_cons, List.mem_append] at h0
  rcases h0 with hkey | hcolon | htext | hend
  · exact (line.key_clean 0 hkey).1 rfl
  · exact absurd hcolon (by decide)
  · exact (line.text_clean 0 htext).1 rfl
  · exact absurd hend (by decide)

theorem amiMessage_noNul (lines : List AmiLine) : 0 ∉ amiMessage lines := by
  intro h0
  rw [amiMessage, List.mem_append] at h0
  rcases h0 with h0 | h0
  · obtain ⟨line, -, hmem⟩ := List.mem_flatMap.mp h0
    exact line.bytes_noNul hmem
  · exact absurd h0 (by decide)

theorem AmiLine.length_bytes (line : AmiLine) :
    line.bytes.length = line.text.length + 1 + line.key.length + 2 := by
  simp only [AmiLine.bytes, List.length_append, List.length_cons, List.length_nil]
  omega

/-- The lines of a message, up to the NUL behind it. -/
theorem parseLoop_lines (fuel : Nat) (events : AmiEvents) (a : List UInt8)
    (hs : events.event = a ++ (amiMessage lines ++ 0 :: r))
    (hn : events.recCount + lines.length ≤ 100) (hslots : events.slots.length = 200) :
    AmiEvents.parseLoop (fuel + (amiMessage lines).length) events (a.length + 1) (some a.length)
        true =
      .ok { event := a ++ (lines.flatMap AmiLine.marked ++ 13 :: 10 :: 0 :: r)
            recCount := events.recCount + lines.length
            slots := recordSlots lines a.length events.recCount events.slots } := by
  induction lines generalizing events a fuel with
  | nil =>
    have h0 : (10 : UInt8) ≠ 0 := by decide
    have h58 : (10 : UInt8) ≠ 58 := by decide
    have hs₁ : events.event = a ++ [13] ++ 10 :: 0 :: r := by
      rw [hs, List.append_assoc]
      rfl
    have hs₂ : events.event = a ++ [13, 10] ++ 0 :: r := by
      rw [hs, List.append_assoc]
      rfl
    have hp₁ : a.length + 1 = (a ++ [(13 : UInt8)]).length := length_next rfl _
    have hp₂ : a.length + 1 + 1 = (a ++ [(13 : UInt8), 10]).length := by
      rw [List.length_append]
      rfl
    have htwo : fuel + (amiMessage []).length = fuel + 1 + 1 := rfl
    rw [htwo, parseLoop_keyByte hs₁ hp₁ h0 h58, AmiEvents.parseLoop, load_at hs₂ hp₂, ok_bind,
      if_pos rfl]
    change Except.ok events = _
    rw [List.flatMap_nil, List.nil_append, List.length_nil, Nat.add_zero, recordSlots]
    congr 1
    exact AmiEvents.mk.injEq .. ▸ ⟨hs, rfl, rfl⟩
  | cons line lines ih =>
    have hfuel : fuel + (amiMessage (line :: lines)).length =
        fuel + 2 + (amiMessage lines).length + (line.text.length + 1) + line.key.length := by
      rw [amiMessage_cons, List.length_append, line.length_bytes]
      omega
    have hs' : events.event = a ++ (line.bytes ++ (amiMessage lines ++ 0 :: r)) := by
      rw [hs, amiMessage_cons, List.append_assoc]
    rw [List.length_cons] at hn
    have hmarked : (a ++ line.marked).length = a.length + line.bytes.length := by
      rw [List.length_append, line.length_marked]
    rw [hfuel, parseLoop_line line hs' (by omega) hslots, ← hmarked]
    have hnext : (events.withLine a line (amiMessage lines ++ 0 :: r)).event =
        a ++ line.marked ++ (amiMessage lines ++ 0 :: r) := (List.append_assoc ..).symm
    rw [ih _ _ _ hnext (by change events.recCount + 1 + _ ≤ _; omega)
      (by simp only [AmiEvents.withLine, List.length_set, hslots])]
    rw [List.flatMap_cons, recordSlots, List.length_cons]
    congr 2
    · simp only [List.append_assoc]
    · change events.recCount + 1 + _ = _
      omega
    · rw [hmarked]
      rfl

/-- A message of up to 100 lines, with a NUL behind it. -/
theorem parseAmievent_message (hs : events.event = amiMessage (line :: lines) ++ 0 :: r)
    (hn : (line :: lines).length ≤ 100) (hslots : events.slots.length = 200) :
    events.parseAmievent =
      .ok { event := (line :: lines).flatMap AmiLine.marked ++ 13 :: 10 :: 0 :: r
            recCount := (line :: lines).length
            slots := recordSlots (line :: lines) 0 0 events.slots } := by
  obtain ⟨c, k, hkey⟩ := List.exists_cons_of_ne_nil line.key_ne
  obtain ⟨h0, h58, -⟩ := line.key_clean c (hkey ▸ List.mem_cons_self ..)
  obtain ⟨rest, hrest⟩ : ∃ rest, ({ events with recCount := 0 } : AmiEvents).event =
      [] ++ c :: rest := by
    change ∃ rest, events.event = _
    rw [hs, amiMessage_cons, AmiLine.bytes, hkey]
    exact ⟨_, rfl⟩
  have hfuel : events.event.length = r.length + 1 + (amiMessage (line :: lines)).length := by
    rw [hs, List.length_append, List.length_cons]
    omega
  have hloop := parseLoop_lines (r.length + 1) { events with recCount := 0 } [] hs
    (by rw [Nat.zero_add]; exact hn) hslots
  have hzero : 0 = ([] : List UInt8).length := rfl
  rw [List.length_nil, Nat.zero_add] at hloop
  rw [AmiEvents.parseAmievent, parseLoop_keyByte hrest hzero h0 h58, hfuel, hloop, Nat.zero_add]
  rfl

/-- Records that have been stored are kept. -/
theorem recordSlots_of_lt (hi : i < n ∨ 100 ≤ i ∧ i < 100 + n) (hn : n + lines.length ≤ 100) :
    (recordSlots lines off n slots)[i]? = slots[i]? := by
  induction lines generalizing off n slots with
  | nil => rfl
  | cons line lines ih =>
    rw [List.length_cons] at hn
    rw [recordSlots, ih (by omega) (by omega), List.getElem?_set_ne (by omega),
      List.getElem?_set_ne (by omega)]

/-- A record's pointers point into the message. -/
theorem recordSlots_le (off n : Nat) (slots : List (Option Nat)) (hi : n ≤ i) (hi' : i < n + lines.length) (hn : n + lines.length ≤ 100)
    (hslots : slots.length = 200) :
    ∃ p q, (recordSlots lines off n slots)[i]? = some (some p) ∧
      (recordSlots lines off n slots)[100 + i]? = some (some q) ∧
      p ≤ off + (lines.flatMap AmiLine.bytes).length ∧
      q ≤ off + (lines.flatMap AmiLine.bytes).length := by
  induction lines generalizing off n slots with
  | nil =>
    rw [List.length_nil] at hi'
    omega
  | cons line lines ih =>
    rw [List.length_cons] at hi' hn
    have hlen : ((line :: lines).flatMap AmiLine.bytes).length =
        line.bytes.length + (lines.flatMap AmiLine.bytes).length := by
      rw [List.flatMap_cons, List.length_append]
    have hblanks : line.blanks.length ≤ line.text.length := (List.takeWhile_prefix _).length_le
    rw [recordSlots, hlen]
    by_cases hni : i = n
    · subst hni
      refine ⟨off, off + line.valueAt, ?_, ?_, by omega, ?_⟩
      · rw [recordSlots_of_lt (by omega) (by omega), List.getElem?_set_ne (by omega),
          List.getElem?_set_self (by omega)]
      · rw [recordSlots_of_lt (by omega) (by omega),
          List.getElem?_set_self (by rw [List.length_set]; omega)]
      · rw [AmiLine.valueAt, line.length_bytes]
        omega
    · obtain ⟨p, q, hp, hq, hple, hqle⟩ := ih (off + line.bytes.length) (n + 1)
        ((slots.set n (some off)).set (100 + n) (some (off + line.valueAt))) (by omega) (by omega)
        (by omega) (by rw [List.length_set, List.length_set]; exact hslots)
      exact ⟨p, q, hp, hq, by omega, by omega⟩

theorem strSlot_eq {p : Nat} (hslot : events.slots[i]? = some (some p)) :
    events.strSlot i = str events.event p := by
  rw [AmiEvents.strSlot, List.getD_eq_getElem?_getD, hslot]
  rfl

/-- A pointer before a NUL is a string. -/
theorem str_before {s x : List UInt8} {p : Nat} (hs : s = x ++ 0 :: r) (hp : p ≤ x.length) :
    ∃ y, str s p = .ok y := by
  have hsplit : s = x.take p ++ (x.drop p ++ 0 :: r) := by
    rw [← List.append_assoc, List.take_append_drop, hs]
  have hlen : p = (x.take p).length := by
    rw [List.length_take]
    omega
  exact ⟨_, str_at hsplit hlen (List.mem_append_right _ (List.mem_cons_self ..))⟩

/-- Where all records are strings, every key can be looked up. -/
theorem getAmivalueLoop_ok (key : List UInt8)
    (hrecords : ∀ i < events.recCount, (∃ x, events.strSlot i = .ok x) ∧
      ∃ x, events.strSlot (100 + i) = .ok x) (hn : n ≤ events.recCount) :
    ∃ x, events.getAmivalueLoop key n = .ok x := by
  induction n with
  | zero => exact ⟨[], rfl⟩
  | succ n ih =>
    obtain ⟨⟨k, hk⟩, v, hv⟩ := hrecords (events.recCount - (n + 1)) (by omega)
    rw [AmiEvents.getAmivalueLoop, hk, ok_bind]
    split
    · exact ⟨v, hv⟩
    · exact ih (by omega)

theorem length_flatMap_marked (lines : List AmiLine) :
    (lines.flatMap AmiLine.marked).length = (lines.flatMap AmiLine.bytes).length := by
  simp only [List.length_flatMap, AmiLine.length_marked]

/-- The first record of a message is its first line, and every key can be looked up. -/
theorem parsed_message (hs : events.event = amiMessage (line :: lines) ++ 0 :: r)
    (hn : (line :: lines).length ≤ 100) (hslots : events.slots.length = 200) :
    ∃ e, events.parseAmievent = .ok e ∧ e.recCount ≠ 0 ∧ e.strSlot 0 = .ok line.key ∧
      e.firstValue = .ok line.value ∧ ∀ key, ∃ x, e.getAmivalue key = .ok x := by
  refine ⟨_, parseAmievent_message hs hn hslots, Nat.succ_ne_zero _, ?_, ?_, fun key => ?_⟩
  · have hslot : (recordSlots (line :: lines) 0 0 events.slots)[0]? = some (some 0) := by
      rw [List.length_cons] at hn
      rw [recordSlots, recordSlots_of_lt (by omega) (by omega), List.getElem?_set_ne (by omega),
        List.getElem?_set_self (by omega)]
    have hkey : 0 ∉ line.key := fun h0 => (line.key_clean 0 h0).1 rfl
    have hevent : (line :: lines).flatMap AmiLine.marked ++ 13 :: 10 :: 0 :: r =
        line.key ++ 0 :: (line.text ++ [0, 0] ++ (lines.flatMap AmiLine.marked ++
          13 :: 10 :: 0 :: r)) := by
      rw [List.flatMap_cons, AmiLine.marked]
      simp only [List.append_assoc, List.cons_append]
    exact (strSlot_eq hslot).trans (str_text (a := []) hevent rfl hkey)
  · have hslot : (recordSlots (line :: lines) 0 0 events.slots)[100]? =
        some (some (0 + line.valueAt)) := by
      rw [List.length_cons] at hn
      rw [recordSlots, recordSlots_of_lt (by omega) (by omega),
        List.getElem?_set_self (by rw [List.length_set]; omega)]
    have hvalue : 0 ∉ line.value := fun h0 =>
      (line.text_clean 0 ((List.dropWhile_suffix _).subset h0)).1 rfl
    have hevent : (line :: lines).flatMap AmiLine.marked ++ 13 :: 10 :: 0 :: r =
        line.key ++ 0 :: line.blanks ++ (line.value ++ 0 :: 0 :: (lines.flatMap AmiLine.marked ++
          13 :: 10 :: 0 :: r)) := by
      have htext : line.text = line.blanks ++ line.value := List.takeWhile_append_dropWhile.symm
      rw [List.flatMap_cons, AmiLine.marked, htext]
      simp only [List.append_assoc, List.cons_append, List.nil_append]
    have hat : 0 + line.valueAt = (line.key ++ 0 :: line.blanks).length := by
      rw [AmiLine.valueAt, List.length_append, List.length_cons]
      omega
    exact (strSlot_eq hslot).trans (str_text hevent hat hvalue)
  · apply getAmivalueLoop_ok key _ (Nat.le_refl _)
    intro i hi
    obtain ⟨p, q, hp, hq, hple, hqle⟩ := recordSlots_le 0 0 events.slots (Nat.zero_le i)
      (by rw [Nat.zero_add]; exact hi) (by rw [Nat.zero_add]; exact hn) hslots
    have hbefore : ((line :: lines).flatMap AmiLine.marked ++ [13, 10]).length =
        ((line :: lines).flatMap AmiLine.bytes).length + 2 := by
      rw [List.length_append, length_flatMap_marked]
      rfl
    have hevent : (line :: lines).flatMap AmiLine.marked ++ 13 :: 10 :: 0 :: r =
        (line :: lines).flatMap AmiLine.marked ++ [13, 10] ++ 0 :: r := by
      rw [List.append_assoc]
      rfl
    constructor
    · rw [strSlot_eq hp]
      exact str_before hevent (by omega)
    · rw [strSlot_eq hq]
      exact str_before hevent (by omega)

end Message

end Tst
