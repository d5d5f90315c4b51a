import Tst.Ami.Record

/-!
# The scanner

`parse_amievent()` has no bound on its text but the NUL, and none on the number of records.
The scanner here makes the checks that it leaves out, and `scanKeys` says from the text alone how
many keys are stored, and when the NUL is passed over.

## Main definitions

- `AmiEvents.checkedLoop`, `AmiEvents.parseChecked` — the parser with its checks
- `scanKeys` — the keys of a text
- `Scanning` — what holds at every byte of a text

## Main results

- `parseAmievent_of_checked` — a checked parse is one of the parser
- `parseLoop_rule` — an invariant of the loop holds where it ends
- `parseChecked_ok`, `parseChecked_fault` — when the checks are passed
-/

namespace Tst

open Bytes CString

namespace AmiEvents

/-- `key[rec_count]` and `value[rec_count]` are there. -/
def hasRoom (events : AmiEvents) : Except Fault Unit :=
  if events.recCount < 100 then .ok () else .error .table

/-- The loop of `parse_amievent()`, where every index into the table is checked. -/
def checkedLoop : Nat → AmiEvents → Nat → Option Nat → Bool → Except Fault AmiEvents
  | 0, _, _, _, _ => .error .endless
  | fuel + 1, events, p, start, isHeader => do
    let b ← load events.event p
    if b = 0 then return events
    else if isHeader then
      if b = 58 then
        events.hasRoom
        checkedLoop fuel (← events.endKey p start) (p + 1) none false
      else checkedLoop fuel events (p + 1) start true
    else
      let start := if start = none ∧ b ≠ 32 then some p else start
      if ← events.atLineEnd p then
        events.hasRoom
        checkedLoop fuel (← events.endValue p start) (p + 3) (some (p + 2)) true
      else checkedLoop fuel events (p + 1) start false

/-- `parse_amievent()` with its checks. -/
def parseChecked (events : AmiEvents) : Except Fault AmiEvents :=
  checkedLoop (events.event.length + 1) { events with recCount := 0 } 0 (some 0) true

end AmiEvents

/-- The number of keys that are stored for a text, with the key before it if it begins in a
value; none where the byte that is skipped behind a value is the NUL behind the text. -/
def scanKeys : Bool → List UInt8 → Option Nat
  | true, [] => some 0
  | false, [] => some 1
  | true, b :: l => if b = 58 then scanKeys false l else scanKeys true l
  | false, [_] => some 1
  | false, [a, b] => if a = 13 ∧ b = 10 then none else some 1
  | false, a :: b :: c :: l =>
    if a = 13 ∧ b = 10 then (scanKeys true l).map (· + 1) else scanKeys false (b :: c :: l)

-- ════════════════════════════════════════════════════════════════════════
-- The parser and its checks
-- ════════════════════════════════════════════════════════════════════════

section Checked

variable {events e : AmiEvents} {p fuel : Nat} {start : Option Nat} {isHeader : Bool}

theorem hasRoom_bind {α : Type} {f : Unit → Except Fault α} {v : α}
    (h : events.hasRoom >>= f = .ok v) : events.recCount < 100 ∧ f () = .ok v := by
  rw [AmiEvents.hasRoom] at h
  split at h
  · next hlt => exact ⟨hlt, h⟩
  · exact absurd h (by simp)

/-- A checked run of the loop is one of the loop. -/
theorem parseLoop_of_checked
    (h : AmiEvents.checkedLoop fuel events p start isHeader = .ok e) :
    AmiEvents.parseLoop fuel events p start isHeader = .ok e := by
  induction fuel generalizing events p start isHeader with
  | zero => exact absurd h (by simp [AmiEvents.checkedLoop])
  | succ fuel ih =>
    rw [AmiEvents.checkedLoop] at h
    rw [AmiEvents.parseLoop]
    obtain ⟨b, hb, h⟩ := bind_eq_ok.mp h
    rw [hb, ok_bind]
    by_cases h0 : b = 0
    · rw [if_pos h0] at h ⊢
      exact h
    · rw [if_neg h0] at h ⊢
      cases isHeader with
      | true =>
        rw [if_pos rfl] at h ⊢
        by_cases h58 : b = 58
        · rw [if_pos h58] at h ⊢
          obtain ⟨-, h⟩ := hasRoom_bind h
          obtain ⟨e', he', h⟩ := bind_eq_ok.mp h
          rw [he', ok_bind]
          exact ih h
        · rw [if_neg h58] at h ⊢
          exact ih h
      | false =>
        rw [if_neg Bool.false_ne_true] at h ⊢
        obtain ⟨atEnd, hend, h⟩ := bind_eq_ok.mp h
        rw [hend, ok_bind]
        cases atEnd with
        | true =>
          rw [if_pos rfl] at h ⊢
          obtain ⟨-, h⟩ := hasRoom_bind h
          obtain ⟨e', he', h⟩ := bind_eq_ok.mp h
          rw [he', ok_bind]
          exact ih h
        | false =>
          rw [if_neg Bool.false_ne_true] at h ⊢
          exact ih h

theorem parseAmievent_of_checked (h : events.parseChecked = .ok e) :
    events.parseAmievent = .ok e :=
  parseLoop_of_checked h

theorem setSlot_eq_ok {i : Nat} {q : Option Nat} (h : events.setSlot i q = .ok e) :
    i < events.slots.length ∧ e = { events with slots := events.slots.set i q } := by
  rw [AmiEvents.setSlot] at h
  split at h
  · next hi => exact ⟨hi, (Except.ok.inj h).symm⟩
  · exact absurd h (by simp)

/-- What the `:` of a record does. -/
theorem endKey_eq_ok (h : events.endKey p start = .ok e) :
    events.recCount < events.slots.length ∧ e =
      { events with
        event := events.event.set p 0
        slots := events.slots.set events.recCount start } := by
  obtain ⟨event, hevent, h⟩ := bind_eq_ok.mp h
  obtain rfl := store_eq_ok hevent
  exact setSlot_eq_ok h

/-- What the line end of a record does. -/
theorem endValue_eq_ok {q : Nat} (h : events.endValue p (some q) = .ok e) :
    100 + events.recCount < events.slots.length ∧ e =
      { event := (events.event.set p 0).set (p + 1) 0
        recCount := events.recCount + 1
        slots := events.slots.set (100 + events.recCount) (some q) } := by
  obtain ⟨event, hevent, h⟩ := bind_eq_ok.mp h
  obtain ⟨event', hevent', h⟩ := bind_eq_ok.mp h
  obtain rfl := store_eq_ok hevent
  obtain rfl := store_eq_ok hevent'
  rw [if_pos (show (some q).isSome = true from rfl)] at h
  obtain ⟨e', he', h⟩ := bind_eq_ok.mp h
  obtain ⟨hlt, rfl⟩ := setSlot_eq_ok he'
  exact ⟨hlt, (Except.ok.inj h).symm⟩

/-- CR LF is there, or it is not. -/
theorem atLineEnd_eq_ok {atEnd : Bool} (h : events.atLineEnd p = .ok atEnd) :
    atEnd = true ↔ load events.event p = .ok 13 ∧ load events.event (p + 1) = .ok 10 := by
  obtain ⟨b, hb, h⟩ := bind_eq_ok.mp h
  by_cases h13 : b = 13
  · rw [if_pos h13] at h
    obtain ⟨c, hc, h⟩ := bind_eq_ok.mp h
    obtain rfl := Except.ok.inj h
    rw [hb, hc, h13, decide_eq_true_iff, Except.ok.injEq, Except.ok.injEq]
    exact ⟨fun h10 => ⟨rfl, h10⟩, And.right⟩
  · rw [if_neg h13] at h
    obtain rfl := Except.ok.inj h
    rw [hb, Except.ok.injEq]
    exact ⟨fun hfalse => absurd hfalse Bool.false_ne_true, fun hb => absurd hb.1 h13⟩

/-- Every step of the loop keeps `Inv`. -/
structure LoopInvariant (Inv : AmiEvents → Nat → Option Nat → Bool → Prop) : Prop where
  keyByte : ∀ events p start b, Inv events p start true → load events.event p = .ok b →
    b ≠ 0 → b ≠ 58 → Inv events (p + 1) start true
  colon : ∀ events p start, Inv events p start true → load events.event p = .ok 58 →
    Inv { events with
          event := events.event.set p 0
          slots := events.slots.set events.recCount start } (p + 1) none false
  valueByte : ∀ events p start b, Inv events p start false → load events.event p = .ok b →
    b ≠ 0 → ¬ (b = 13 ∧ load events.event (p + 1) = .ok 10) →
    Inv events (p + 1) (noteStart start b p) false
  lineEnd : ∀ events p start, Inv events p start false → load events.event p = .ok 13 →
    load events.event (p + 1) = .ok 10 →
    Inv { event := (events.event.set p 0).set (p + 1) 0
          recCount := events.recCount + 1
          slots := events.slots.set (100 + events.recCount) (some (start.getD p)) } (p + 3)
      (some (p + 2)) true

/-- An invariant of the loop holds where it ends, and it ends at a NUL. -/
theorem parseLoop_rule {Inv : AmiEvents → Nat → Option Nat → Bool → Prop}
    (hrule : LoopInvariant Inv)
    (hinv : Inv events p start isHeader)
    (h : AmiEvents.parseLoop fuel events p start isHeader = .ok e) :
    ∃ q start isHeader, Inv e q start isHeader ∧ load e.event q = .ok 0 := by
  induction fuel generalizing events p start isHeader with
  | zero => exact absurd h (by simp [AmiEvents.parseLoop])
  | succ fuel ih =>
    rw [AmiEvents.parseLoop] at h
    obtain ⟨b, hb, h⟩ := bind_eq_ok.mp h
    by_cases h0 : b = 0
    · rw [if_pos h0] at h
      obtain rfl : events = e := Except.ok.inj h
      exact ⟨p, start, isHeader, hinv, h0 ▸ hb⟩
    · rw [if_neg h0] at h
      cases isHeader with
      | true =>
        rw [if_pos rfl] at h
        by_cases h58 : b = 58
        · rw [if_pos h58] at h
          obtain ⟨e', he', h⟩ := bind_eq_ok.mp h
          obtain ⟨-, rfl⟩ := endKey_eq_ok he'
          exact ih (hrule.colon _ _ _ hinv (h58 ▸ hb)) h
        · rw [if_neg h58] at h
          exact ih (hrule.keyByte _ _ _ _ hinv hb h0 h58) h
      | false =>
        rw [if_neg Bool.false_ne_true] at h
        obtain ⟨atEnd, hend, h⟩ := bind_eq_ok.mp h
        have hpair := atLineEnd_eq_ok hend
        cases atEnd with
        | true =>
          obtain ⟨h13, h10⟩ := hpair.mp rfl
          obtain rfl : b = 13 := Except.ok.inj (hb.symm.trans h13)
          have hnote : noteStart start 13 p = some (start.getD p) := by
            cases start with
            | none => rfl
            | some i => rfl
          change (events.endValue p (noteStart start 13 p) >>= _) = _ at h
          rw [hnote] at h
          obtain ⟨e', he', h⟩ := bind_eq_ok.mp h
          obtain ⟨-, rfl⟩ := endValue_eq_ok he'
          exact ih (hrule.lineEnd _ _ _ hinv h13 h10) h
        | false =>
          rw [if_neg Bool.false_ne_true] at h
          refine ih (hrule.valueByte _ _ _ _ hinv hb h0 ?_) h
          rintro ⟨rfl, h10⟩
          exact Bool.false_ne_true (hpair.mpr ⟨hb, h10⟩)

end Checked

-- ════════════════════════════════════════════════════════════════════════
-- One byte
-- ════════════════════════════════════════════════════════════════════════

section Step

variable {events : AmiEvents} {a r : List UInt8} {b c : UInt8} {p fuel : Nat}
  {start : Option Nat} {isHeader : Bool}

theorem checkedLoop_nul (hs : events.event = a ++ 0 :: r) (hp : p = a.length) :
    AmiEvents.checkedLoop (fuel + 1) events p start isHeader = .ok events := by
  rw [AmiEvents.checkedLoop, load_at hs hp, ok_bind, if_pos rfl]
  rfl

theorem checkedLoop_keyByte (hs : events.event = a ++ b :: r) (hp : p = a.length) (h0 : b ≠ 0)
    (h58 : b ≠ 58) : AmiEvents.checkedLoop (fuel + 1) events p start true =
      AmiEvents.checkedLoop fuel events (p + 1) start true := by
  rw [AmiEvents.checkedLoop, load_at hs hp, ok_bind, if_neg h0, if_pos rfl, if_neg h58]

theorem hasRoom_lt (h : events.recCount < 100) : events.hasRoom = .ok () := if_pos h

theorem hasRoom_ge (h : 100 ≤ events.recCount) : events.hasRoom = .error .table :=
  if_neg (Nat.not_lt.mpr h)

theorem checkedLoop_colon (hs : events.event = a ++ 58 :: r) (hp : p = a.length)
    (hroom : events.recCount < 100) (hslots : events.slots.length = 200) :
    AmiEvents.checkedLoop (fuel + 1) events p start true =
      AmiEvents.checkedLoop fuel
        { events with
          event := a ++ 0 :: r
          slots := events.slots.set events.recCount start } (p + 1) none false := by
  have h0 : (58 : UInt8) ≠ 0 := by decide
  rw [AmiEvents.checkedLoop, load_at hs hp, ok_bind, if_neg h0, if_pos rfl, if_pos rfl,
    hasRoom_lt hroom, ok_bind, endKey_at hs hp (by omega), ok_bind]

/-- CR LF is looked for with both bytes. -/
theorem atLineEnd_pair (hs : events.event = a ++ b :: c :: r) (hp : p = a.length) :
    events.atLineEnd p = .ok (decide (b = 13 ∧ c = 10)) := by
  have hs' : events.event = a ++ [b] ++ c :: r := by
    rw [hs, List.append_assoc]
    rfl
  have hp' : p + 1 = (a ++ [b]).length := length_next hp _
  rw [AmiEvents.atLineEnd, load_at hs hp, ok_bind]
  by_cases h13 : b = 13
  · rw [if_pos h13, load_at hs' hp', ok_bind]
    simp [h13, pure, Except.pure]
  · rw [if_neg h13]
    simp [h13, pure, Except.pure]

theorem checkedLoop_valueByte (hs : events.event = a ++ b :: c :: r) (hp : p = a.length)
    (h0 : b ≠ 0) (hend : ¬ (b = 13 ∧ c = 10)) :
    AmiEvents.checkedLoop (fuel + 1) events p start false =
      AmiEvents.checkedLoop fuel events (p + 1) (noteStart start b p) false := by
  rw [AmiEvents.checkedLoop, load_at hs hp, ok_bind, if_neg h0, if_neg Bool.false_ne_true,
    atLineEnd_pair hs hp, ok_bind, decide_eq_false hend, if_neg Bool.false_ne_true]
  rfl

theorem checkedLoop_lineEnd (hs : events.event = a ++ 13 :: 10 :: r) (hp : p = a.length)
    (hroom : events.recCount < 100) (hslots : events.slots.length = 200) :
    AmiEvents.checkedLoop (fuel + 1) events p start false =
      AmiEvents.checkedLoop fuel
        { event := a ++ 0 :: 0 :: r
          recCount := events.recCount + 1
          slots := events.slots.set (100 + events.recCount) (some (start.getD p)) }
        (p + 3) (some (p + 2)) true := by
  have h0 : (13 : UInt8) ≠ 0 := by decide
  have hnote : (if start = none ∧ (13 : UInt8) ≠ 32 then some p else start) =
      some (start.getD p) := by
    cases start with
    | none => rfl
    | some i => rfl
  rw [AmiEvents.checkedLoop, load_at hs hp, ok_bind, if_neg h0, if_neg Bool.false_ne_true]
  simp only [atLineEnd_end hs hp, ok_bind, hnote, if_true, hasRoom_lt hroom,
    endValue_at hs hp (show 100 + events.recCount < events.slots.length by omega)]

end Step

-- ════════════════════════════════════════════════════════════════════════
-- A text
-- ════════════════════════════════════════════════════════════════════════

/-- The records point into the text, which ends at `n`; so does `start`. Behind a key that
key is stored. -/
structure Scanning (events : AmiEvents) (n : Nat) (start : Option Nat) (isHeader : Bool) :
    Prop where
  slots_length : events.slots.length = 200
  records : ∀ i < events.recCount, (∃ q ≤ n, events.slots[i]? = some (some q)) ∧
    ∃ q ≤ n, events.slots[100 + i]? = some (some q)
  start_le : ∀ q, start = some q → q ≤ n
  header : isHeader = true → ∃ q, start = some q
  value : isHeader = false →
    events.recCount < 100 ∧ ∃ q ≤ n, events.slots[events.recCount]? = some (some q)

section Text

variable {events : AmiEvents} {a r t : List UInt8} {b : UInt8} {n p fuel : Nat}
  {start : Option Nat} {isHeader : Bool}

/-- A key is stored. -/
theorem Scanning.colon (h : Scanning events n start true) (hroom : events.recCount < 100)
    (event : List UInt8) :
    Scanning { events with event, slots := events.slots.set events.recCount start } n none
      false where
  slots_length := by rw [List.length_set]; exact h.slots_length
  records := by
    intro i hi
    change i < events.recCount at hi
    rw [List.getElem?_set_ne (by omega), List.getElem?_set_ne (by omega)]
    exact h.records i hi
  start_le := by
    intro q hq
    exact absurd hq (by simp)
  header := fun hfalse => absurd hfalse Bool.false_ne_true
  value := by
    intro _
    obtain ⟨q, rfl⟩ := h.header rfl
    have hlen := h.slots_length
    refine ⟨hroom, q, h.start_le q rfl, ?_⟩
    exact List.getElem?_set_self (by omega)

/-- A byte of a value. -/
theorem Scanning.valueByte (h : Scanning events n start false) (hp : p ≤ n) :
    Scanning events n (noteStart start b p) false where
  slots_length := h.slots_length
  records := h.records
  start_le := by
    intro q hq
    rw [noteStart] at hq
    split at hq
    · obtain rfl := Option.some.inj hq
      exact hp
    · exact h.start_le q hq
  header := fun hfalse => absurd hfalse Bool.false_ne_true
  value := h.value

/-- A value is stored. -/
theorem Scanning.lineEnd (h : Scanning events n start false) (hp : p + 2 ≤ n)
    (event : List UInt8) :
    Scanning
      { event
        recCount := events.recCount + 1
        slots := events.slots.set (100 + events.recCount) (some (start.getD p)) }
      n (some (p + 2)) true where
  slots_length := by rw [List.length_set]; exact h.slots_length
  records := by
    obtain ⟨hroom, k, hk, hkey⟩ := h.value rfl
    have hlen := h.slots_length
    have hstart : start.getD p ≤ n := by
      cases start with
      | none =>
        change p ≤ n
        omega
      | some q => exact h.start_le q rfl
    intro i hi
    change i < events.recCount + 1 at hi
    rw [List.getElem?_set_ne (by omega)]
    obtain rfl | hne := Nat.eq_or_lt_of_le (Nat.lt_succ_iff.mp hi)
    · exact ⟨⟨k, hk, hkey⟩, _, hstart, List.getElem?_set_self (by omega)⟩
    · rw [List.getElem?_set_ne (by omega)]
      exact h.records i hne
  start_le := by
    intro q hq
    obtain rfl := Option.some.inj hq
    exact hp
  header := fun _ => ⟨_, rfl⟩
  value := fun hfalse => absurd hfalse.symm Bool.false_ne_true

/-- The text does not begin with a NUL, and what follows the byte has none. -/
theorem noNul_cons (h : 0 ∉ b :: t) : b ≠ 0 ∧ 0 ∉ t :=
  ⟨fun h0 => h (h0 ▸ List.mem_cons_self ..), fun h0 => h (List.mem_cons_of_mem _ h0)⟩

/-- A parse that ends at the NUL behind `n` bytes, with records that are strings. -/
def EndsAt (n : Nat) (r : List UInt8) (result : Except Fault AmiEvents) : Prop :=
  ∃ e start isHeader x, result = .ok e ∧ Scanning e n start isHeader ∧ e.event = x ++ 0 :: r ∧
    x.length = n

theorem endsAt_nul (hs : events.event = a ++ 0 :: r) (hp : p = a.length)
    (hfuel : 0 < fuel) (h : Scanning events a.length start isHeader) :
    EndsAt a.length r (AmiEvents.checkedLoop fuel events p start isHeader) := by
  obtain ⟨fuel, rfl⟩ : ∃ m, fuel = m + 1 := ⟨fuel - 1, by omega⟩
  exact ⟨events, start, isHeader, a, checkedLoop_nul hs hp, h, hs, rfl⟩

/-- The key before a value is counted. -/
theorem scan_pos {k : Nat} (hscan : scanKeys false t = some k) : 0 < k := by
  induction t generalizing k with
  | nil =>
    obtain rfl := Option.some.inj hscan
    exact Nat.one_pos
  | cons b t ih =>
    cases t with
    | nil =>
      obtain rfl := Option.some.inj hscan
      exact Nat.one_pos
    | cons c t =>
      cases t with
      | nil =>
        rw [scanKeys] at hscan
        split at hscan
        · exact absurd hscan (by simp)
        · obtain rfl := Option.some.inj hscan
          exact Nat.one_pos
      | cons d t =>
        rw [scanKeys] at hscan
        split at hscan
        · obtain ⟨k, -, rfl⟩ := Option.map_eq_some_iff.mp hscan
          exact Nat.succ_pos k
        · exact ih hscan

/-- The text up to its first `:` has no key. -/
theorem scan_key {key : List UInt8} (hkey : 58 ∉ key) (w : List UInt8) :
    scanKeys true (key ++ 58 :: w) = scanKeys false w := by
  induction key with
  | nil => rw [List.nil_append, scanKeys, if_pos rfl]
  | cons b key ih =>
    have hb : b ≠ 58 := fun h => hkey (h ▸ List.mem_cons_self ..)
    rw [List.cons_append, scanKeys, if_neg hb]
    exact ih fun h => hkey (List.mem_cons_of_mem _ h)

/-- A value without an end. -/
theorem scan_open (hend : ¬ [13, 10] <:+: t) : scanKeys false t = some 1 := by
  induction t with
  | nil => rfl
  | cons b t ih =>
    have hrest : ¬ [13, 10] <:+: t := fun h => hend (h.trans (List.suffix_cons b t).isInfix)
    cases t with
    | nil => rfl
    | cons c t =>
      have hpair : ¬ (b = 13 ∧ c = 10) := by
        rintro ⟨rfl, rfl⟩
        exact hend ⟨[], t, rfl⟩
      cases t with
      | nil => rw [scanKeys, if_neg hpair]
      | cons d t =>
        rw [scanKeys, if_neg hpair]
        exact ih hrest

/-- A text that does not pass over its NUL and whose keys fit in the table is parsed. -/
theorem checkedLoop_ok (isHeader : Bool) (t : List UInt8) (hnul : 0 ∉ t) (k : Nat)
    (hscan : scanKeys isHeader t = some k) (events : AmiEvents) (a : List UInt8)
    (start : Option Nat) (p fuel : Nat) (hs : events.event = a ++ (t ++ 0 :: r))
    (hp : p = a.length) (hfuel : t.length < fuel) (hroom : events.recCount + k ≤ 100)
    (h : Scanning events (a ++ t).length start isHeader) :
    EndsAt (a ++ t).length r (AmiEvents.checkedLoop fuel events p start isHeader) := by
  induction isHeader, t using scanKeys.induct generalizing events a start p fuel k with
  | case1 =>
    rw [List.append_nil] at h ⊢
    exact endsAt_nul hs hp hfuel h
  | case2 =>
    rw [List.append_nil] at h ⊢
    exact endsAt_nul hs hp hfuel h
  | case3 t ih =>
    obtain ⟨-, hnul⟩ := noNul_cons hnul
    obtain ⟨fuel, rfl⟩ : ∃ m, fuel = m + 1 := ⟨fuel - 1, by omega⟩
    rw [scanKeys, if_pos rfl] at hscan
    have hpos := scan_pos hscan
    have hlen : (a ++ 58 :: t).length = (a ++ [(0 : UInt8)] ++ t).length := by
      simp only [List.length_append, List.length_cons, List.length_nil]
      omega
    rw [checkedLoop_colon hs hp (by omega) h.slots_length, hlen]
    rw [hlen] at h
    refine ih hnul k hscan _ (a ++ [0]) none (p + 1) fuel (List.append_cons ..) ?_
      (Nat.lt_of_succ_lt_succ hfuel) hroom (h.colon (by omega) _)
    rw [hp, List.length_append, List.length_singleton]
  | case4 b t h58 ih =>
    obtain ⟨h0, hnul⟩ := noNul_cons hnul
    obtain ⟨fuel, rfl⟩ : ∃ m, fuel = m + 1 := ⟨fuel - 1, by omega⟩
    rw [scanKeys, if_neg h58] at hscan
    rw [checkedLoop_keyByte hs hp h0 h58, List.append_cons]
    rw [List.append_cons] at h
    refine ih hnul k hscan events (a ++ [b]) start (p + 1) fuel ?_ ?_
      (Nat.lt_of_succ_lt_succ hfuel) hroom h
    · rw [hs, List.cons_append, List.append_cons]
    · rw [hp, List.length_append, List.length_singleton]
  | case5 b =>
    obtain ⟨h0, -⟩ := noNul_cons hnul
    obtain ⟨fuel, rfl⟩ : ∃ m, fuel = m + 1 := ⟨fuel - 1, by omega⟩
    have hend : ¬ (b = 13 ∧ (0 : UInt8) = 10) := fun h10 => absurd h10.2 (by decide)
    rw [checkedLoop_valueByte hs hp h0 hend]
    refine endsAt_nul (hs.trans (List.append_cons ..)) ?_ (Nat.lt_of_succ_lt_succ hfuel)
      (h.valueByte ?_)
    · rw [hp, List.length_append, List.length_singleton]
    · rw [hp, List.length_append]
      omega
  | case6 b c hend =>
    rw [scanKeys, if_pos hend] at hscan
    exact absurd hscan (by simp)
  | case7 b c hend =>
    obtain ⟨h0, hnul⟩ := noNul_cons hnul
    obtain ⟨h0', -⟩ := noNul_cons hnul
    obtain ⟨m, rfl⟩ : ∃ m, fuel = m + 1 + 1 := by
      change 2 < fuel at hfuel
      exact ⟨fuel - 2, by omega⟩
    have hend' : ¬ (c = 13 ∧ (0 : UInt8) = 10) := fun h10 => absurd h10.2 (by decide)
    have hs' : events.event = a ++ [b] ++ c :: 0 :: r := hs.trans (List.append_cons ..)
    have hs'' : events.event = a ++ [b] ++ [c] ++ 0 :: r := hs'.trans (List.append_cons ..)
    have hp' : p + 1 = (a ++ [b]).length := length_next hp _
    have hp'' : p + 1 + 1 = (a ++ [b] ++ [c]).length := by
      have hone : [c].length = 1 := rfl
      rw [hp', ← hone, ← List.length_append]
    have hle : p + 1 + 1 ≤ (a ++ [b] ++ [c]).length := hp''.le
    rw [List.append_cons] at h ⊢
    change 2 < m + 1 + 1 at hfuel
    rw [checkedLoop_valueByte hs hp h0 hend, checkedLoop_valueByte hs' hp' h0' hend']
    exact endsAt_nul hs'' hp'' (by omega) ((h.valueByte (by omega)).valueByte (by omega))
  | case8 b c d t hend ih =>
    obtain ⟨rfl, rfl⟩ := hend
    obtain ⟨-, hnul⟩ := noNul_cons hnul
    obtain ⟨-, hnul⟩ := noNul_cons hnul
    obtain ⟨-, hnul⟩ := noNul_cons hnul
    obtain ⟨fuel, rfl⟩ : ∃ m, fuel = m + 1 := ⟨fuel - 1, by omega⟩
    rw [scanKeys, if_pos ⟨rfl, rfl⟩, Option.map_eq_some_iff] at hscan
    obtain ⟨k, hscan, rfl⟩ := hscan
    simp only [List.length_cons] at hfuel
    have hroom' : events.recCount < 100 := (h.value rfl).1
    have hlen : (a ++ 13 :: 10 :: d :: t).length = (a ++ [0, 0, d] ++ t).length := by
      simp only [List.length_append, List.length_cons, List.length_nil]
      omega
    rw [checkedLoop_lineEnd hs hp hroom' h.slots_length, hlen]
    rw [hlen] at h
    refine ih hnul k hscan _ (a ++ [0, 0, d]) _ (p + 3) fuel ?_ ?_ (by omega) ?_
      (h.lineEnd ?_ _)
    · change a ++ 0 :: 0 :: d :: (t ++ 0 :: r) = _
      simp only [List.append_assoc, List.cons_append, List.nil_append]
    · rw [hp, List.length_append]
      rfl
    · change events.recCount + 1 + k ≤ 100
      omega
    · rw [hp, List.length_append, List.length_append]
      change a.length + 2 ≤ a.length + 3 + t.length
      omega
  | case9 b c d t hend ih =>
    obtain ⟨h0, hnul⟩ := noNul_cons hnul
    obtain ⟨fuel, rfl⟩ : ∃ m, fuel = m + 1 := ⟨fuel - 1, by omega⟩
    rw [scanKeys, if_neg hend] at hscan
    have hp' : p + 1 = (a ++ [b]).length := length_next hp _
    rw [checkedLoop_valueByte hs hp h0 hend, List.append_cons]
    rw [List.append_cons] at h
    refine ih hnul k hscan events (a ++ [b]) _ (p + 1) fuel (hs.trans (List.append_cons ..)) hp'
      (Nat.lt_of_succ_lt_succ hfuel) hroom (h.valueByte ?_)
    rw [hp, List.length_append, List.length_append]
    omega

/-- No room for a key. -/
theorem checkedLoop_full (hs : events.event = a ++ 58 :: r) (hp : p = a.length)
    (hroom : 100 ≤ events.recCount) :
    AmiEvents.checkedLoop (fuel + 1) events p start true = .error .table := by
  have h0 : (58 : UInt8) ≠ 0 := by decide
  rw [AmiEvents.checkedLoop, load_at hs hp, ok_bind, if_neg h0, if_pos rfl, if_pos rfl,
    hasRoom_ge hroom]
  rfl

theorem checkedLoop_past (hp : events.event.length ≤ p) (e : AmiEvents) :
    AmiEvents.checkedLoop fuel events p start isHeader ≠ .ok e := by
  cases fuel with
  | zero => simp [AmiEvents.checkedLoop]
  | succ fuel =>
    have hload : load events.event p = .error .bounds := by
      rw [load, List.getElem?_eq_none hp]
    rw [AmiEvents.checkedLoop, hload]
    simp

/-- A text that passes over its NUL, or whose keys do not fit in the table. -/
theorem checkedLoop_fault (isHeader : Bool) (t : List UInt8) (hnul : 0 ∉ t)
    (events : AmiEvents) (a : List UInt8) (start : Option Nat) (p fuel : Nat)
    (hscan : ∀ k, scanKeys isHeader t = some k → 100 < events.recCount + k)
    (hs : events.event = a ++ (t ++ [0])) (hp : p = a.length)
    (hslots : events.slots.length = 200) (hheader : events.recCount ≤ 100)
    (hvalue : isHeader = false → events.recCount < 100) (e : AmiEvents) :
    AmiEvents.checkedLoop fuel events p start isHeader ≠ .ok e := by
  induction isHeader, t using scanKeys.induct generalizing events a start p fuel with
  | case1 =>
    have hroom := hscan 0 rfl
    omega
  | case2 =>
    have hroom := hscan 1 rfl
    have hlt := hvalue rfl
    omega
  | case3 t ih =>
    obtain ⟨-, hnul⟩ := noNul_cons hnul
    cases fuel with
    | zero => simp [AmiEvents.checkedLoop]
    | succ fuel =>
      by_cases hroom : events.recCount < 100
      · rw [checkedLoop_colon hs hp hroom hslots]
        refine ih hnul _ (a ++ [0]) none (p + 1) fuel ?_ (List.append_cons ..) ?_ ?_ hheader
          fun _ => hroom
        · intro k hk
          apply hscan
          rw [scanKeys, if_pos rfl, hk]
        · rw [hp, List.length_append, List.length_singleton]
        · rw [List.length_set]
          exact hslots
      · rw [checkedLoop_full hs hp (Nat.not_lt.mp hroom)]
        simp
  | case4 b t h58 ih =>
    obtain ⟨h0, hnul⟩ := noNul_cons hnul
    cases fuel with
    | zero => simp [AmiEvents.checkedLoop]
    | succ fuel =>
      rw [checkedLoop_keyByte hs hp h0 h58]
      refine ih hnul events (a ++ [b]) start (p + 1) fuel ?_ (hs.trans (List.append_cons ..)) ?_
        hslots hheader hvalue
      · intro k hk
        apply hscan
        rw [scanKeys, if_neg h58, hk]
      · rw [hp, List.length_append, List.length_singleton]
  | case5 b =>
    have hroom := hscan 1 rfl
    have hlt := hvalue rfl
    omega
  | case6 b c hend =>
    obtain ⟨rfl, rfl⟩ := hend
    cases fuel with
    | zero => simp [AmiEvents.checkedLoop]
    | succ fuel =>
      rw [checkedLoop_lineEnd hs hp (hvalue rfl) hslots]
      apply checkedLoop_past
      rw [hp, List.length_append]
      rfl
  | case7 b c hend =>
    have hroom := hscan 1 (by rw [scanKeys, if_neg hend])
    have hlt := hvalue rfl
    omega
  | case8 b c d t hend ih =>
    obtain ⟨rfl, rfl⟩ := hend
    obtain ⟨-, hnul⟩ := noNul_cons hnul
    obtain ⟨-, hnul⟩ := noNul_cons hnul
    obtain ⟨-, hnul⟩ := noNul_cons hnul
    have hlt := hvalue rfl
    cases fuel with
    | zero => simp [AmiEvents.checkedLoop]
    | succ fuel =>
      rw [checkedLoop_lineEnd hs hp hlt hslots]
      refine ih hnul _ (a ++ [0, 0, d]) _ (p + 3) fuel ?_ ?_ ?_ ?_ hlt
        fun hfalse => absurd hfalse.symm Bool.false_ne_true
      · intro k hk
        have hroom := hscan (k + 1) (by rw [scanKeys, if_pos ⟨rfl, rfl⟩, hk]; rfl)
        change 100 < events.recCount + 1 + k
        omega
      · change a ++ 0 :: 0 :: d :: (t ++ [0]) = _
        simp only [List.append_assoc, List.cons_append, List.nil_append]
      · rw [hp, List.length_append]
        rfl
      · rw [List.length_set]
        exact hslots
  | case9 b c d t hend ih =>
    obtain ⟨h0, hnul⟩ := noNul_cons hnul
    cases fuel with
    | zero => simp [AmiEvents.checkedLoop]
    | succ fuel =>
      rw [checkedLoop_valueByte hs hp h0 hend]
      refine ih hnul events (a ++ [b]) _ (p + 1) fuel ?_ (hs.trans (List.append_cons ..)) ?_
        hslots hheader hvalue
      · intro k hk
        apply hscan
        rw [scanKeys, if_neg hend, hk]
      · rw [hp, List.length_append, List.length_singleton]

theorem loopInvariant_noNul :
    LoopInvariant fun events p _ _ => ∀ i, p ≤ i → events.event[i]? ≠ some 0 where
  keyByte := by
    intro events p start b hinv _ _ _ i hi
    exact hinv i (by omega)
  colon := by
    intro events p start hinv _ i hi
    change (events.event.set p 0)[i]? ≠ some 0
    rw [List.getElem?_set_ne (by omega)]
    exact hinv i (by omega)
  valueByte := by
    intro events p start b hinv _ _ _ i hi
    exact hinv i (by omega)
  lineEnd := by
    intro events p start hinv _ _ i hi
    change ((events.event.set p 0).set (p + 1) 0)[i]? ≠ some 0
    rw [List.getElem?_set_ne (by omega), List.getElem?_set_ne (by omega)]
    exact hinv i (by omega)

/-- The parser does not stop in a text without a NUL. -/
theorem parseLoop_unterminated (hnul : ∀ i, p ≤ i → events.event[i]? ≠ some 0) (e : AmiEvents) :
    AmiEvents.parseLoop fuel events p start isHeader ≠ .ok e := by
  intro h
  obtain ⟨q, start', isHeader', hinv, hq⟩ := parseLoop_rule loopInvariant_noNul hnul h
  exact hinv q (Nat.le_refl q) (load_eq_ok hq)

/-- The records of a parsed text are strings. -/
theorem Scanning.strings {x : List UInt8} (h : Scanning events n start isHeader)
    (hs : events.event = x ++ 0 :: r) (hx : x.length = n) {i : Nat} (hi : i < events.recCount) :
    (∃ s, events.strSlot i = .ok s) ∧ ∃ s, events.strSlot (100 + i) = .ok s := by
  obtain ⟨⟨k, hk, hkey⟩, v, hv, hvalue⟩ := h.records i hi
  constructor
  · rw [strSlot_eq hkey]
    exact str_before hs (hk.trans hx.ge)
  · rw [strSlot_eq hvalue]
    exact str_before hs (hv.trans hx.ge)

/-- Every key can be looked up in a parsed text. -/
theorem Scanning.getAmivalue {x : List UInt8} (h : Scanning events n start isHeader)
    (hs : events.event = x ++ 0 :: r) (hx : x.length = n) (key : List UInt8) :
    ∃ s, events.getAmivalue key = .ok s :=
  getAmivalueLoop_ok key (fun _ hi => h.strings hs hx hi) (Nat.le_refl _)

-- ════════════════════════════════════════════════════════════════════════
-- A parse
-- ════════════════════════════════════════════════════════════════════════

/-- The text has no more keys than the table has room for, and its NUL is not passed over. -/
def Parsable (t : List UInt8) : Prop := ∃ k ≤ 100, scanKeys true t = some k

theorem parsable_iff (t : List UInt8) : Parsable t ↔ ((scanKeys true t).any (· ≤ 100)) = true := by
  rw [Parsable, Option.any_eq_true]
  constructor
  · rintro ⟨k, hk, hscan⟩
    exact ⟨k, hscan, decide_eq_true hk⟩
  · rintro ⟨k, hscan, hk⟩
    exact ⟨k, of_decide_eq_true hk, hscan⟩

instance (t : List UInt8) : Decidable (Parsable t) := decidable_of_iff' _ (parsable_iff t)

/-- Such a text is parsed, whatever stands behind it. -/
theorem parseChecked_ok (events : AmiEvents) (hs : events.event = t ++ 0 :: r) (hnul : 0 ∉ t) (ht : Parsable t)
    (hslots : events.slots.length = 200) : EndsAt t.length r events.parseChecked := by
  obtain ⟨k, hk, hscan⟩ := ht
  have hfuel : t.length < events.event.length + 1 := by
    rw [hs, List.length_append]
    omega
  have hstart : Scanning { events with recCount := 0 } t.length (some 0) true :=
    { slots_length := hslots
      records := fun i hi => absurd hi (Nat.not_lt_zero i)
      start_le := by
        intro q hq
        obtain rfl := Option.some.inj hq
        exact Nat.zero_le _
      header := fun _ => ⟨0, rfl⟩
      value := fun hfalse => absurd hfalse.symm Bool.false_ne_true }
  exact checkedLoop_ok true t hnul k hscan { events with recCount := 0 } [] (some 0) 0 _ hs rfl
    hfuel (by rw [Nat.zero_add]; exact hk) hstart

/-- The checks are passed by such a text alone. -/
theorem parseChecked_iff (hs : events.event = t ++ [0]) (hnul : 0 ∉ t)
    (hslots : events.slots.length = 200) :
    (∃ e, events.parseChecked = .ok e) ↔ Parsable t := by
  constructor
  · rintro ⟨e, he⟩
    by_contra hnot
    have hscan : ∀ k, scanKeys true t = some k → 100 < 0 + k := by
      intro k hk
      rw [Nat.zero_add]
      by_contra hle
      exact hnot ⟨k, Nat.not_lt.mp hle, hk⟩
    exact checkedLoop_fault true t hnul { events with recCount := 0 } [] (some 0) 0 _ hscan hs rfl
      hslots (Nat.zero_le _) (fun hfalse => absurd hfalse.symm Bool.false_ne_true) e he
  · intro ht
    obtain ⟨e, -, -, -, he, -⟩ := parseChecked_ok events hs hnul ht hslots
    exact ⟨e, he⟩

/-- A text without a NUL passes no check. -/
theorem parseChecked_unterminated (hnul : 0 ∉ events.event) (e : AmiEvents) :
    events.parseChecked ≠ .ok e := by
  intro h
  refine parseLoop_unterminated ?_ e (parseLoop_of_checked h)
  intro i _ hi
  exact hnul (List.mem_of_getElem? hi)

end Text

end Tst
