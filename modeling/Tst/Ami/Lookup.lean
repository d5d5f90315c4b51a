import Tst.Ami.Record

/-!
# The table of a message

A record is a key, blanks, and a value. What the parser leaves of a message of up to 100
records are their keys and values as strings, and a key is looked up in their order.

## Main definitions

- `AmiRecord` — a record, `renderRecords` — the bytes of a message
- `recordValue` — the value of the first record with a key

## Main results

- `parse_recovers_records` — the parser recovers the records of a message
-/

namespace Tst

open Bytes CString

/-- A record of a message. -/
structure AmiRecord where
  key : List UInt8
  blanks : Nat
  value : List UInt8
  key_ne : key ≠ []
  key_clean : ∀ b ∈ key, b ≠ 0 ∧ b ≠ 58 ∧ b ≠ 13 ∧ b ≠ 10
  value_clean : ∀ b ∈ value, b ≠ 0 ∧ b ≠ 13 ∧ b ≠ 10
  value_head : value.head? ≠ some 32

namespace AmiRecord

def bytes (record : AmiRecord) : List UInt8 :=
  record.key ++ 58 :: (List.replicate record.blanks 32 ++ record.value ++ [13, 10])

/-- The line of a record. -/
def line (record : AmiRecord) : AmiLine where
  key := record.key
  text := List.replicate record.blanks 32 ++ record.value
  key_ne := record.key_ne
  key_clean := record.key_clean
  text_clean := by
    intro b hb
    obtain hb | hb := List.mem_append.mp hb
    · rw [List.eq_of_mem_replicate hb]
      decide
    · exact record.value_clean b hb

/-- The value of the line is that of the record. -/
theorem value_line (record : AmiRecord) : record.line.value = record.value := by
  have hvalue : record.value.dropWhile (· = 32) = record.value := by
    have hhead := record.value_head
    cases hv : record.value with
    | nil => rfl
    | cons b v =>
      have hb : b ≠ 32 := by
        intro hb
        rw [hv, hb] at hhead
        exact hhead rfl
      rw [List.dropWhile_cons_of_neg (by simpa using hb)]
  change (List.replicate record.blanks 32 ++ record.value).dropWhile (· = 32) = _
  rw [List.dropWhile_append_of_pos (by simp), hvalue]

end AmiRecord

/-- The bytes of a message. -/
def renderRecords (records : List AmiRecord) : List UInt8 :=
  records.flatMap AmiRecord.bytes ++ [13, 10]

/-- The value of the first record with that key, or the empty string. -/
def recordValue (key : List UInt8) (records : List AmiRecord) : List UInt8 :=
  ((records.find? fun record => record.key = key).map AmiRecord.value).getD []

theorem recordValue_cons (key : List UInt8) (record : AmiRecord) (records : List AmiRecord) :
    recordValue key (record :: records) =
      if record.key = key then record.value else recordValue key records := by
  by_cases hkey : record.key = key
  · have hfind : (record :: records).find? (fun record => record.key = key) = some record :=
      List.find?_cons_of_pos (by simpa using hkey)
    rw [recordValue, hfind, if_pos hkey]
    rfl
  · have hfind : (record :: records).find? (fun record => record.key = key) =
        records.find? fun record => record.key = key :=
      List.find?_cons_of_neg (by simpa using hkey)
    rw [recordValue, hfind, if_neg hkey]
    rfl

theorem renderRecords_eq (records : List AmiRecord) :
    renderRecords records = amiMessage (records.map AmiRecord.line) := by
  rw [renderRecords, amiMessage, List.flatMap_map]
  rfl

section Table

variable {events : AmiEvents} {r : List UInt8} {line : AmiLine} {x y : List AmiLine}
  {slots : List (Option Nat)} {key : List UInt8} {records : List AmiRecord}

/-- Where the record of a line begins, and where its value begins. -/
theorem recordSlots_at (x : List AmiLine) (line : AmiLine) (y : List AmiLine) (off n : Nat)
    (slots : List (Option Nat)) (hn : n + (x ++ line :: y).length ≤ 100) (hslots : slots.length = 200) :
    (recordSlots (x ++ line :: y) off n slots)[n + x.length]? =
        some (some (off + (x.flatMap AmiLine.bytes).length)) ∧
      (recordSlots (x ++ line :: y) off n slots)[100 + (n + x.length)]? =
        some (some (off + (x.flatMap AmiLine.bytes).length + line.valueAt)) := by
  induction x generalizing off n slots with
  | nil =>
    rw [List.nil_append, List.length_cons] at hn
    change (recordSlots (line :: y) off n slots)[n]? = some (some off) ∧
      (recordSlots (line :: y) off n slots)[100 + n]? = some (some (off + line.valueAt))
    rw [recordSlots, recordSlots_of_lt (by omega) (by omega),
      recordSlots_of_lt (by omega) (by omega)]
    constructor
    · rw [List.getElem?_set_ne (by omega), List.getElem?_set_self (by omega)]
    · rw [List.getElem?_set_self (by rw [List.length_set]; omega)]
  | cons l x ih =>
    rw [List.cons_append, List.length_cons] at hn
    obtain ⟨hkey, hvalue⟩ := ih (off + l.bytes.length) (n + 1)
      ((slots.set n (some off)).set (100 + n) (some (off + l.valueAt))) (by omega)
      (by rw [List.length_set, List.length_set, hslots])
    have hidx : n + (l :: x).length = n + 1 + x.length := by
      rw [List.length_cons]
      omega
    have hoff : off + ((l :: x).flatMap AmiLine.bytes).length =
        off + l.bytes.length + (x.flatMap AmiLine.bytes).length := by
      rw [List.flatMap_cons, List.length_append]
      omega
    rw [hidx, hoff, List.cons_append, recordSlots]
    exact ⟨hkey, hvalue⟩

/-- The strings of the record of a line. -/
theorem strSlot_line (events : AmiEvents) (x : List AmiLine) (line : AmiLine) (y : List AmiLine)
    (slots : List (Option Nat))
    (hevent : events.event = (x ++ line :: y).flatMap AmiLine.marked ++ 13 :: 10 :: 0 :: r)
    (hslots : events.slots = recordSlots (x ++ line :: y) 0 0 slots)
    (hn : (x ++ line :: y).length ≤ 100) (hlen : slots.length = 200) :
    events.strSlot x.length = .ok line.key ∧ events.strSlot (100 + x.length) = .ok line.value := by
  obtain ⟨hkeyAt, hvalueAt⟩ := recordSlots_at x line y 0 0 slots
    (by rw [Nat.zero_add]; exact hn) hlen
  rw [Nat.zero_add, Nat.zero_add, ← hslots] at hkeyAt hvalueAt
  have hkey : 0 ∉ line.key := fun h0 => (line.key_clean 0 h0).1 rfl
  have hvalue : 0 ∉ line.value := fun h0 =>
    (line.text_clean 0 ((List.dropWhile_suffix _).subset h0)).1 rfl
  have htext : line.text = line.blanks ++ line.value := List.takeWhile_append_dropWhile.symm
  have hsplit : events.event = x.flatMap AmiLine.marked ++ (line.key ++ 0 :: (line.text ++
      0 :: 0 :: (y.flatMap AmiLine.marked ++ 13 :: 10 :: 0 :: r))) := by
    rw [hevent, List.flatMap_append, List.flatMap_cons, AmiLine.marked]
    simp only [List.append_assoc, List.cons_append, List.nil_append]
  have hsplit' : events.event = x.flatMap AmiLine.marked ++ line.key ++ 0 :: line.blanks ++
      (line.value ++ 0 :: 0 :: (y.flatMap AmiLine.marked ++ 13 :: 10 :: 0 :: r)) := by
    rw [hsplit, htext]
    simp only [List.append_assoc, List.cons_append]
  have hoff : (x.flatMap AmiLine.bytes).length = (x.flatMap AmiLine.marked).length :=
    (length_flatMap_marked x).symm
  have hoff' : (x.flatMap AmiLine.bytes).length + line.valueAt =
      (x.flatMap AmiLine.marked ++ line.key ++ 0 :: line.blanks).length := by
    simp only [AmiLine.valueAt, hoff, List.length_append, List.length_cons]
    omega
  constructor
  · rw [strSlot_eq hkeyAt]
    exact str_text hsplit hoff hkey
  · rw [strSlot_eq hvalueAt]
    exact str_text hsplit' hoff' hvalue

/-- The last records are looked up in their order. -/
theorem getAmivalueLoop_eq (key : List UInt8) (records : List AmiRecord)
    (hstr : ∀ i (hi : i < records.length),
      events.strSlot (events.recCount - records.length + i) = .ok (records[i]).key ∧
        events.strSlot (100 + (events.recCount - records.length + i)) = .ok (records[i]).value)
    (hle : records.length ≤ events.recCount) :
    events.getAmivalueLoop key records.length = .ok (recordValue key records) := by
  induction records with
  | nil => rfl
  | cons record records ih =>
    rw [List.length_cons] at hle
    obtain ⟨hkey, hvalue⟩ := hstr 0 (Nat.succ_pos _)
    change events.strSlot (events.recCount - (records.length + 1)) = .ok record.key at hkey
    change events.strSlot (100 + (events.recCount - (records.length + 1))) =
      .ok record.value at hvalue
    rw [List.length_cons, AmiEvents.getAmivalueLoop, hkey, ok_bind, recordValue_cons]
    split
    · exact hvalue
    · apply ih
      · intro i hi
        have hnext := hstr (i + 1) (Nat.succ_lt_succ hi)
        have hidx : events.recCount - (record :: records).length + (i + 1) =
            events.recCount - records.length + i := by
          rw [List.length_cons]
          omega
        rw [hidx] at hnext
        exact hnext
      · omega

/-- A message without a record. -/
theorem parseAmievent_empty (hs : events.event = 13 :: 10 :: 0 :: r) :
    events.parseAmievent = .ok { events with recCount := 0 } := by
  have h0 : (10 : UInt8) ≠ 0 := by decide
  have h58 : (10 : UInt8) ≠ 58 := by decide
  have h0' : (13 : UInt8) ≠ 0 := by decide
  have h58' : (13 : UInt8) ≠ 58 := by decide
  have hlen : events.event.length + 1 = r.length + 1 + 1 + 1 + 1 := by
    rw [hs]
    rfl
  have hs₀ : ({ events with recCount := 0 } : AmiEvents).event = [] ++ 13 :: 10 :: 0 :: r := hs
  have hs₁ : ({ events with recCount := 0 } : AmiEvents).event = [13] ++ 10 :: 0 :: r := hs
  have hs₂ : ({ events with recCount := 0 } : AmiEvents).event = [13, 10] ++ 0 :: r := hs
  rw [AmiEvents.parseAmievent, hlen, parseLoop_keyByte (p := 0) hs₀ rfl h0' h58',
    parseLoop_keyByte (p := 1) hs₁ rfl h0 h58, AmiEvents.parseLoop, load_at (i := 2) hs₂ rfl,
    ok_bind, if_pos rfl]
  rfl

/-- The parser recovers the records of a message, whatever stands behind its NUL and whatever
the table has held. -/
theorem parse_recovers_records (events : AmiEvents) (records : List AmiRecord) (r : List UInt8)
    (hs : events.event = renderRecords records ++ 0 :: r) (hn : records.length ≤ 100)
    (hslots : events.slots.length = 200) :
    ∃ e, events.parseAmievent = .ok e ∧ e.recCount = records.length ∧
      (∀ i (hi : i < records.length), e.strSlot i = .ok (records[i]).key ∧
        e.strSlot (100 + i) = .ok (records[i]).value) ∧
      ∀ key, e.getAmivalue key = .ok (recordValue key records) := by
  obtain ⟨e, he, hcount, hstr⟩ : ∃ e, events.parseAmievent = .ok e ∧
      e.recCount = records.length ∧
      ∀ i (hi : i < records.length), e.strSlot i = .ok (records[i]).key ∧
        e.strSlot (100 + i) = .ok (records[i]).value := by
    rw [renderRecords_eq] at hs
    cases hrecords : records.map AmiRecord.line with
    | nil =>
      rw [List.map_eq_nil_iff] at hrecords
      subst hrecords
      exact ⟨_, parseAmievent_empty hs, rfl, fun i hi => absurd hi (Nat.not_lt_zero i)⟩
    | cons line lines =>
      have hlen : (line :: lines).length = records.length := by rw [← hrecords, List.length_map]
      rw [hrecords] at hs
      refine ⟨_, parseAmievent_message hs (hlen ▸ hn) hslots, hlen, ?_⟩
      intro i hi
      have hi' : i < (line :: lines).length := hlen ▸ hi
      have hget : (line :: lines)[i] = (records[i]).line := by
        simp only [← hrecords, List.getElem_map]
      have hsplit : line :: lines =
          (line :: lines).take i ++ (records[i]).line :: (line :: lines).drop (i + 1) := by
        rw [← hget, ← List.drop_eq_getElem_cons hi', List.take_append_drop]
      have htake : ((line :: lines).take i).length = i := by
        rw [List.length_take]
        omega
      have hline := strSlot_line (r := r)
        { event := (line :: lines).flatMap AmiLine.marked ++ 13 :: 10 :: 0 :: r
          recCount := (line :: lines).length
          slots := recordSlots (line :: lines) 0 0 events.slots }
        ((line :: lines).take i) (records[i]).line ((line :: lines).drop (i + 1)) events.slots
        (by rw [← hsplit]) (by rw [← hsplit]) (by rw [← hsplit, hlen]; exact hn) hslots
      rw [htake, AmiRecord.value_line] at hline
      exact hline
  refine ⟨e, he, hcount, hstr, fun key => ?_⟩
  rw [AmiEvents.getAmivalue, hcount]
  apply getAmivalueLoop_eq key records _ hcount.ge
  intro i hi
  rw [hcount, Nat.sub_self, Nat.zero_add]
  exact hstr i hi

/-- `A: b` and `C:`, in a block that holds other bytes behind the NUL. -/
theorem parse_recovers_records_two :
    ∃ e, ({ event := [65, 58, 32, 98, 13, 10, 67, 58, 13, 10, 13, 10, 0] ++
              List.replicate 4083 255 } : AmiEvents).parseAmievent = .ok e ∧ e.recCount = 2 ∧
      (e.strSlot 0 = .ok [65] ∧ e.strSlot 100 = .ok [98]) ∧
      (e.strSlot 1 = .ok [67] ∧ e.strSlot 101 = .ok []) ∧
      e.getAmivalue [65] = .ok [98] ∧ e.getAmivalue [66] = .ok [] := by
  let first : AmiRecord := ⟨[65], 1, [98], by decide, List.forall_mem_singleton.mpr (by decide),
    List.forall_mem_singleton.mpr (by decide), by decide⟩
  let second : AmiRecord := ⟨[67], 0, [], by decide, List.forall_mem_singleton.mpr (by decide),
    List.forall_mem_nil _, by decide⟩
  obtain ⟨e, he, hcount, hstr, hlookup⟩ := parse_recovers_records
    { event := [65, 58, 32, 98, 13, 10, 67, 58, 13, 10, 13, 10, 0] ++ List.replicate 4083 255 }
    [first, second] (List.replicate 4083 255) rfl (by decide) (by rw [List.length_replicate])
  exact ⟨e, he, hcount, hstr 0 (by decide), hstr 1 (by decide), hlookup [65], hlookup [66]⟩

end Table

end Tst
