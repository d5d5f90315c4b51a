import Tst.Ami.Lookup
import Tst.Ami.Dispatch

/-!
# The records of a text

What the parser finds in any text, which need not be a message: the scanner here reads the text as
`parse_amievent()` does, and collects the strings that the table points at in the end.

## Main definitions

- `scanRecords`, `eventRecords` — the strings and the records of a text
- `Scanned` — how far the parser and the scanner have come

## Main results

- `scanRecords_message` — the records of a message are its lines
- `scanRecords_length` — records take no more bytes than their text
- `parseAmievent_records` — the parser leaves the records of its text
-/

namespace Tst

open Bytes CString

/-- What has been read of a value, with one more byte. A blank before a value is not part of it. -/
def nextPart (part : List UInt8) (b : UInt8) : List UInt8 :=
  if part = [] ∧ b = 32 then [] else part ++ [b]

/-- The strings of a text: those that have been read, and a key whose value has no end.
`key` is the key before a value, and `part` is what has been read of a key or a value. A key begins
with a byte that has not been looked at, and where that is a NUL the key is empty. -/
def scanRecords : Option (List UInt8) → List UInt8 → List UInt8 →
    List (List UInt8 × Option (List UInt8))
  | none, _, [] => []
  | none, part, b :: l =>
    if b = 0 then []
    else if b = 58 then scanRecords (some (cstr part)) [] l
    else scanRecords none (part ++ [b]) l
  | some key, part, a :: b :: c :: l =>
    if a = 0 then [(key, none)]
    else if a = 13 ∧ b = 10 then (key, some (cstr part)) :: scanRecords none [c] l
    else scanRecords (some key) (nextPart part a) (b :: c :: l)
  | some key, part, [a, b] => if a = 13 ∧ b = 10 then [(key, some (cstr part))] else [(key, none)]
  | some key, _, [_] => [(key, none)]
  | some key, _, [] => [(key, none)]

/-- The keys that have a value, with it. -/
def withValue (strings : List (List UInt8 × Option (List UInt8))) :
    List (List UInt8 × List UInt8) :=
  strings.filterMap fun string => string.2.map fun value => (string.1, value)

/-- The records of a text. -/
def eventRecords (t : List UInt8) : List (List UInt8 × List UInt8) :=
  withValue (scanRecords none [] t)

/-- The bytes that some records take without their indentation, which is as many as they take in
a message without blanks. -/
def recordsLength (records : List (List UInt8 × List UInt8)) : Nat :=
  (records.map fun record => record.1.length + record.2.length + 3).sum

-- ════════════════════════════════════════════════════════════════════════
-- The scanner
-- ════════════════════════════════════════════════════════════════════════

section Scan

attribute [local simp] scanRecords

variable {part l t key k v : List UInt8} {b : UInt8} {lines : List AmiLine}

theorem scanRecords_nul (key : Option (List UInt8)) (part l : List UInt8) :
    scanRecords key part (0 :: l) = (key.map fun key => (key, none)).toList := by
  cases key with
  | none => rw [scanRecords, if_pos rfl]; rfl
  | some key =>
    cases l with
    | nil => rw [scanRecords]; rfl
    | cons b l =>
      cases l with
      | nil => rw [scanRecords, if_neg fun h => absurd h.1 (by decide)]; rfl
      | cons c l => rw [scanRecords, if_pos rfl]; rfl

theorem scanRecords_keyByte (h0 : b ≠ 0) (h58 : b ≠ 58) :
    scanRecords none part (b :: l) = scanRecords none (part ++ [b]) l := by
  rw [scanRecords, if_neg h0, if_neg h58]

theorem scanRecords_colon :
    scanRecords none part (58 :: l) = scanRecords (some (cstr part)) [] l := by
  have h0 : (58 : UInt8) ≠ 0 := by decide
  rw [scanRecords, if_neg h0, if_pos rfl]

theorem scanRecords_valueByte (h0 : b ≠ 0) (hend : ¬ (b = 13 ∧ l.head? = some 10)) :
    scanRecords (some key) part (b :: l) = scanRecords (some key) (nextPart part b) l := by
  cases l with
  | nil => rw [scanRecords, scanRecords]
  | cons c l =>
    have hpair : ¬ (b = 13 ∧ c = 10) := fun h => hend ⟨h.1, congrArg some h.2⟩
    cases l with
    | nil => rw [scanRecords, if_neg hpair, scanRecords]
    | cons d l => rw [scanRecords, if_neg h0, if_neg hpair]

theorem scanRecords_lineEnd :
    scanRecords (some key) part (13 :: 10 :: b :: l) =
      (key, some (cstr part)) :: scanRecords none [b] l := by
  have h0 : (13 : UInt8) ≠ 0 := by decide
  rw [scanRecords, if_neg h0, if_pos ⟨rfl, rfl⟩]

/-- The key before a value is one of the strings. -/
theorem scanRecords_ne_nil (key part t : List UInt8) : scanRecords (some key) part t ≠ [] := by
  induction t generalizing part with
  | nil => simp [scanRecords]
  | cons b t ih =>
    by_cases h0 : b = 0
    · rw [h0, scanRecords_nul]
      simp
    · by_cases hend : b = 13 ∧ t.head? = some 10
      · obtain ⟨rfl, hhead⟩ := hend
        obtain ⟨t, rfl⟩ : ∃ l, t = 10 :: l := List.head?_eq_some_iff.mp hhead
        cases t with
        | nil => simp [scanRecords]
        | cons c t => simp
      · rw [scanRecords_valueByte h0 hend]
        exact ih _

theorem not_lineEnd {a : UInt8} (h : ¬ (a = 13 ∧ b = 10)) (l : List UInt8) :
    ¬ (a = 13 ∧ (b :: l).head? = some 10) := by
  rintro ⟨ha, hb⟩
  exact h ⟨ha, Option.some.inj hb⟩

/-- What follows the NUL of a text does not matter, if it is zeroed. -/
theorem scanRecords_text {key : Option (List UInt8)} {z : List UInt8} (ht : 0 ∉ t)
    (hz : ∀ b ∈ z, b = 0) :
    scanRecords key part (t ++ 0 :: z) = scanRecords key part t := by
  have hnul : ∀ {a : UInt8}, ¬ (a = 13 ∧ (0 : UInt8) = 10) := fun h => absurd h.2 (by decide)
  induction key, part, t using scanRecords.induct with
  | case1 part => rw [List.nil_append, scanRecords_nul, scanRecords]; rfl
  | case2 part l => exact absurd (List.mem_cons_self ..) ht
  | case3 part l h0 ih =>
    rw [List.cons_append, scanRecords_colon, scanRecords_colon]
    exact ih fun h => ht (List.mem_cons_of_mem _ h)
  | case4 part b l h0 h58 ih =>
    rw [List.cons_append, scanRecords_keyByte h0 h58, scanRecords_keyByte h0 h58]
    exact ih fun h => ht (List.mem_cons_of_mem _ h)
  | case5 key part b c l => exact absurd (List.mem_cons_self ..) ht
  | case6 key part a b c l h0 hend ih =>
    obtain ⟨rfl, rfl⟩ := hend
    rw [List.cons_append, List.cons_append, List.cons_append, scanRecords_lineEnd,
      scanRecords_lineEnd, ih]
    exact fun h => ht (by simp [h])
  | case7 key part a b c l h0 hend ih =>
    rw [List.cons_append, List.cons_append, scanRecords_valueByte h0 (not_lineEnd hend _),
      scanRecords_valueByte h0 (not_lineEnd hend _)]
    exact ih fun h => ht (List.mem_cons_of_mem _ h)
  | case8 key part a b hend =>
    -- the NUL is passed over
    obtain ⟨rfl, rfl⟩ := hend
    have hrest : scanRecords none [0] z = [] := by
      cases z with
      | nil => rfl
      | cons b z => rw [hz b (List.mem_cons_self ..), scanRecords_nul]; rfl
    rw [List.cons_append, List.cons_append, List.nil_append, scanRecords_lineEnd, hrest,
      scanRecords, if_pos ⟨rfl, rfl⟩]
  | case9 key part a b hend =>
    have ha : a ≠ 0 := fun h => ht (h ▸ List.mem_cons_self ..)
    have hb : b ≠ 0 := fun h => ht (h ▸ List.mem_cons_of_mem _ (List.mem_cons_self ..))
    rw [List.cons_append, List.cons_append, List.nil_append,
      scanRecords_valueByte ha (not_lineEnd hend _),
      scanRecords_valueByte hb (not_lineEnd hnul _), scanRecords_nul, scanRecords, if_neg hend]
    rfl
  | case10 key part b =>
    have hb : b ≠ 0 := fun h => ht (h ▸ List.mem_cons_self ..)
    rw [List.cons_append, List.nil_append,
      scanRecords_valueByte hb (not_lineEnd hnul _), scanRecords_nul, scanRecords]
    rfl
  | case11 key part => rw [List.nil_append, scanRecords_nul, scanRecords]; rfl

@[simp] theorem withValue_nil : withValue [] = [] := rfl

@[simp] theorem withValue_some (strings : List (List UInt8 × Option (List UInt8))) :
    withValue ((k, some v) :: strings) = (k, v) :: withValue strings := rfl

@[simp] theorem recordsLength_cons (record : List UInt8 × List UInt8)
    (records : List (List UInt8 × List UInt8)) :
    recordsLength (record :: records) =
      record.1.length + record.2.length + 3 + recordsLength records := by
  simp [recordsLength]

/-- There are as many strings as keys are stored. -/
theorem scanRecords_count (key : Option (List UInt8)) {n : Nat} (ht : 0 ∉ t)
    (hkeys : scanKeys key.isNone t = some n) : (scanRecords key part t).length = n := by
  induction key, part, t using scanRecords.induct generalizing n with
  | case1 part => exact Option.some.inj hkeys
  | case2 part l => exact absurd (List.mem_cons_self ..) ht
  | case3 part l h0 ih =>
    obtain ⟨-, ht⟩ := noNul_cons ht
    rw [Option.isNone_none, scanKeys, if_pos rfl] at hkeys
    rw [scanRecords_colon]
    exact ih ht hkeys
  | case4 part b l h0 h58 ih =>
    obtain ⟨-, ht⟩ := noNul_cons ht
    rw [Option.isNone_none, scanKeys, if_neg h58] at hkeys
    rw [scanRecords_keyByte h0 h58]
    exact ih ht hkeys
  | case5 key part b c l => exact absurd (List.mem_cons_self ..) ht
  | case6 key part a b c l h0 hend ih =>
    obtain ⟨rfl, rfl⟩ := hend
    obtain ⟨-, ht⟩ := noNul_cons ht
    obtain ⟨-, ht⟩ := noNul_cons ht
    obtain ⟨-, ht⟩ := noNul_cons ht
    rw [Option.isNone_some, scanKeys, if_pos ⟨rfl, rfl⟩, Option.map_eq_some_iff] at hkeys
    obtain ⟨n, hkeys, rfl⟩ := hkeys
    rw [scanRecords_lineEnd, List.length_cons, ih ht hkeys]
  | case7 key part a b c l h0 hend ih =>
    obtain ⟨-, ht⟩ := noNul_cons ht
    rw [Option.isNone_some, scanKeys, if_neg hend] at hkeys
    rw [scanRecords_valueByte h0 (not_lineEnd hend _)]
    exact ih ht hkeys
  | case8 key part a b hend =>
    rw [Option.isNone_some, scanKeys, if_pos hend] at hkeys
    exact absurd hkeys (by simp)
  | case9 key part a b hend =>
    rw [Option.isNone_some, scanKeys, if_neg hend] at hkeys
    rw [scanRecords, if_neg hend]
    exact Option.some.inj hkeys
  | case10 key part b =>
    rw [scanRecords]
    exact Option.some.inj hkeys
  | case11 key part =>
    rw [scanRecords]
    exact Option.some.inj hkeys

/-- The records take no more bytes than the text. -/
theorem scanRecords_length (key : Option (List UInt8)) (part t : List UInt8) :
    recordsLength (withValue (scanRecords key part t)) ≤
      key.elim 0 (·.length + 1) + part.length + t.length := by
  induction key, part, t using scanRecords.induct with
  | case1 part => simp [scanRecords, recordsLength]
  | case2 part l =>
    rw [scanRecords_nul]
    exact Nat.zero_le _
  | case3 part l h0 ih =>
    have hpart := (cstr_sublist part).length_le
    simp only [Option.elim_some, List.length_nil, Option.elim_none, List.length_cons] at ih ⊢
    rw [scanRecords_colon]
    omega
  | case4 part b l h0 h58 ih =>
    simp only [List.length_append, List.length_cons, List.length_nil] at ih ⊢
    rw [scanRecords_keyByte h0 h58]
    omega
  | case5 key part b c l =>
    rw [scanRecords_nul]
    exact Nat.zero_le _
  | case6 key part a b c l h0 hend ih =>
    obtain ⟨rfl, rfl⟩ := hend
    have hpart := (cstr_sublist part).length_le
    simp only [Option.elim_some, Option.elim_none, List.length_cons, List.length_nil] at ih ⊢
    rw [scanRecords_lineEnd, withValue_some, recordsLength_cons]
    dsimp only
    omega
  | case7 key part a b c l h0 hend ih =>
    have hnext : (nextPart part a).length ≤ part.length + 1 := by
      rw [nextPart]
      split
      · exact Nat.zero_le _
      · exact List.length_append.le
    rw [scanRecords_valueByte h0 (not_lineEnd hend _)]
    simp only [List.length_cons] at ih ⊢
    omega
  | case8 key part a b hend =>
    have hpart := (cstr_sublist part).length_le
    rw [scanRecords, if_pos hend, withValue_some, recordsLength_cons]
    simp only [Option.elim_some, withValue_nil, recordsLength, List.map_nil, List.sum_nil,
      List.length_cons, List.length_nil]
    omega
  | case9 key part a b hend =>
    rw [scanRecords, if_neg hend]
    exact Nat.zero_le _
  | case10 key part b =>
    rw [scanRecords]
    exact Nat.zero_le _
  | case11 key part =>
    rw [scanRecords]
    exact Nat.zero_le _

theorem scanRecords_keyBytes (hk : ∀ b ∈ k, b ≠ 0 ∧ b ≠ 58) :
    scanRecords none part (k ++ 58 :: l) = scanRecords (some (cstr (part ++ k))) [] l := by
  induction k generalizing part with
  | nil => rw [List.nil_append, scanRecords_colon, List.append_nil]
  | cons b k ih =>
    obtain ⟨h0, h58⟩ := hk b (List.mem_cons_self ..)
    rw [List.cons_append, scanRecords_keyByte h0 h58,
      ih fun c hc => hk c (List.mem_cons_of_mem _ hc), List.append_assoc]
    rfl

/-- A value that has begun. -/
theorem scanRecords_begun (hpart : part ≠ []) (hv : ∀ b ∈ v, b ≠ 0 ∧ b ≠ 13) :
    scanRecords (some key) part (v ++ 13 :: 10 :: b :: l) =
      (key, some (cstr (part ++ v))) :: scanRecords none [b] l := by
  induction v generalizing part with
  | nil => rw [List.nil_append, scanRecords_lineEnd, List.append_nil]
  | cons c v ih =>
    obtain ⟨h0, h13⟩ := hv c (List.mem_cons_self ..)
    have hnext : nextPart part c = part ++ [c] := if_neg fun h => hpart h.1
    rw [List.cons_append, scanRecords_valueByte h0 fun h => h13 h.1, hnext,
      ih (by simp) fun d hd => hv d (List.mem_cons_of_mem _ hd), List.append_assoc]
    rfl

/-- A value behind its blanks. -/
theorem scanRecords_value (hv : ∀ b ∈ v, b ≠ 0 ∧ b ≠ 13) :
    scanRecords (some key) [] (v ++ 13 :: 10 :: b :: l) =
      (key, some (cstr (v.dropWhile (· = 32)))) :: scanRecords none [b] l := by
  induction v with
  | nil => rw [List.nil_append, scanRecords_lineEnd]; rfl
  | cons c v ih =>
    obtain ⟨h0, h13⟩ := hv c (List.mem_cons_self ..)
    have hv' : ∀ d ∈ v, d ≠ 0 ∧ d ≠ 13 := fun d hd => hv d (List.mem_cons_of_mem _ hd)
    rw [List.cons_append, scanRecords_valueByte h0 fun h => h13 h.1]
    by_cases hc : c = 32
    · have hnext : nextPart [] c = [] := if_pos ⟨rfl, hc⟩
      rw [hnext, ih hv', List.dropWhile_cons_of_pos (by simpa using hc)]
    · have hnext : nextPart [] c = [c] := if_neg fun h => hc h.2
      rw [hnext, scanRecords_begun (by simp) hv', List.dropWhile_cons_of_neg (by simpa using hc)]
      rfl

/-- One line of a message. -/
theorem scanRecords_line (line : AmiLine) (h0 : b ≠ 0) (h58 : b ≠ 58) :
    scanRecords none [] (line.bytes ++ b :: l) =
      (line.key, some line.value) :: scanRecords none [] (b :: l) := by
  have hkey : ∀ c ∈ line.key, c ≠ 0 ∧ c ≠ 58 := by
    intro c hc
    obtain ⟨h0, h58, -⟩ := line.key_clean c hc
    exact ⟨h0, h58⟩
  have htext : ∀ c ∈ line.text, c ≠ 0 ∧ c ≠ 13 := by
    intro c hc
    obtain ⟨h0, h13, -⟩ := line.text_clean c hc
    exact ⟨h0, h13⟩
  have hvalue : 0 ∉ line.value := fun h =>
    (htext 0 ((List.dropWhile_suffix _).subset h)).1 rfl
  have hs : line.bytes ++ b :: l = line.key ++ 58 :: (line.text ++ 13 :: 10 :: b :: l) := by
    simp [AmiLine.bytes]
  rw [hs, scanRecords_keyBytes hkey, scanRecords_value htext, scanRecords_keyByte h0 h58,
    List.nil_append, cstr_of_noNul fun h => (hkey 0 h).1 rfl]
  change (line.key, some (cstr line.value)) :: _ = _
  rw [cstr_of_noNul hvalue]
  rfl

/-- The records of a message are its lines. -/
theorem scanRecords_message (lines : List AmiLine) (r : List UInt8) :
    scanRecords none [] (amiMessage lines ++ 0 :: r) =
      lines.map fun line => (line.key, some line.value) := by
  induction lines with
  | nil => rfl
  | cons line lines ih =>
    obtain ⟨b, l, hrest, h0, h58⟩ : ∃ b l, amiMessage lines ++ 0 :: r = b :: l ∧ b ≠ 0 ∧
        b ≠ 58 := by
      cases lines with
      | nil => exact ⟨13, _, rfl, by decide, by decide⟩
      | cons line lines =>
        obtain ⟨b, k, hkey⟩ := List.exists_cons_of_ne_nil line.key_ne
        obtain ⟨h0, h58, -⟩ := line.key_clean b (hkey ▸ List.mem_cons_self ..)
        refine ⟨b, k ++ 58 :: (line.text ++ [13, 10]) ++ amiMessage lines ++ 0 :: r, ?_, h0, h58⟩
        rw [amiMessage_cons, AmiLine.bytes, hkey]
        rfl
    rw [amiMessage_cons, List.append_assoc, hrest, scanRecords_line line h0 h58, ← hrest, ih,
      List.map_cons]

theorem withValue_records (records : List (List UInt8 × List UInt8)) :
    withValue (records.map fun record => (record.1, some record.2)) = records := by
  rw [withValue, List.filterMap_map]
  exact List.filterMap_some

theorem withValue_lines (lines : List AmiLine) :
    withValue (lines.map fun line => (line.key, some line.value)) =
      lines.map fun line => (line.key, line.value) := by
  rw [withValue, List.filterMap_map]
  exact congrFun List.filterMap_eq_map _

theorem value_le_recordsLength {record : List UInt8 × List UInt8}
    {records : List (List UInt8 × List UInt8)} (hmem : record ∈ records) :
    record.2.length ≤ recordsLength records := by
  induction records with
  | nil => exact absurd hmem List.not_mem_nil
  | cons first records ih =>
    rw [recordsLength_cons]
    obtain rfl | hmem := List.mem_cons.mp hmem
    · omega
    · have hle := ih hmem
      omega

end Scan

-- ════════════════════════════════════════════════════════════════════════
-- The parser
-- ════════════════════════════════════════════════════════════════════════

/-- A string and its NUL are at `q`. -/
def StringAt (x : List UInt8) (q : Nat) (s : List UInt8) : Prop :=
  ∃ a y w, x = a ++ (y ++ 0 :: w) ∧ q = a.length ∧ cstr y = s

/-- A slot points at that string in `x`. -/
def PointsAt (slots : List (Option Nat)) (x : List UInt8) (i : Nat) (s : List UInt8) : Prop :=
  ∃ q, slots[i]? = some (some q) ∧ StringAt x q s

/-- What has become of a text `block` when the parser has come to the end of `x`: `done` is in the
table, and `rest` has not been looked at. -/
structure Scanned (block x rest : List UInt8) (done : List (List UInt8 × List UInt8))
    (key : Option (List UInt8)) (part : List UInt8) (events : AmiEvents) (start : Option Nat) :
    Prop where
  event : events.event = x ++ rest
  slots_length : events.slots.length = 200
  recCount : events.recCount = done.length
  table : ∀ (i : Nat) record, done[i]? = some record →
    PointsAt events.slots x i record.1 ∧ PointsAt events.slots x (100 + i) record.2
  pending : ∀ k ∈ key, PointsAt events.slots x done.length k
  start : (start = none ∧ part = [] ∧ key.isSome) ∨
    ∃ a, x = a ++ part ∧ start = some a.length ∧ (key.isSome → part ≠ [])
  scan : scanRecords none [] block =
    done.map (fun record => (record.1, some record.2)) ++ scanRecords key part rest

/-- The parser is behind the block, or it reads it as the scanner does. -/
def Scans (block : List UInt8) (events : AmiEvents) (p : Nat) (start : Option Nat)
    (isHeader : Bool) : Prop :=
  events.event.length < p ∨ ∃ x rest done key part, p = x.length ∧ isHeader = key.isNone ∧
    Scanned block x rest done key part events start

section Parse

variable {block x rest part s : List UInt8} {done : List (List UInt8 × List UInt8)}
  {key : Option (List UInt8)} {k : List UInt8} {events e : AmiEvents} {start : Option Nat}
  {slots : List (Option Nat)} {b : UInt8} {p i q : Nat}

theorem StringAt.append (h : StringAt x q s) (z : List UInt8) : StringAt (x ++ z) q s := by
  obtain ⟨a, y, w, rfl, hq, hy⟩ := h
  exact ⟨a, y, w ++ z, by simp, hq, hy⟩

theorem PointsAt.append (h : PointsAt slots x i s) (z : List UInt8) :
    PointsAt slots (x ++ z) i s := by
  obtain ⟨q, hslot, hat⟩ := h
  exact ⟨q, hslot, hat.append z⟩

/-- What is stored elsewhere leaves a slot alone. -/
theorem PointsAt.set (h : PointsAt slots x i s) {j : Nat} (hne : j ≠ i) (start : Option Nat)
    (z : List UInt8) : PointsAt (slots.set j start) (x ++ z) i s := by
  obtain ⟨q, hslot, hat⟩ := h
  exact ⟨q, by rw [List.getElem?_set_ne hne]; exact hslot, hat.append z⟩

theorem PointsAt.set_self (hi : i < slots.length) (h : StringAt x q s) :
    PointsAt (slots.set i (some q)) x i s :=
  ⟨q, List.getElem?_set_self hi, h⟩

theorem PointsAt.strSlot (h : PointsAt events.slots x i s) (hs : events.event = x ++ rest) :
    events.strSlot i = .ok s := by
  obtain ⟨q, hslot, a, y, w, rfl, hq, hy⟩ := h
  have hevent : events.event = a ++ (y ++ 0 :: (w ++ rest)) := by
    rw [hs]
    simp
  rw [strSlot_eq hslot, str_at hevent hq (by simp), cstr_append_zero, hy]

theorem PointsAt.noNul (h : PointsAt slots x i s) : 0 ∉ s := by
  obtain ⟨-, -, a, y, w, -, -, rfl⟩ := h
  exact not_mem_cstr y

theorem load_past (h : s.length < p) : load s p ≠ .ok b := by
  intro hload
  obtain ⟨hlt, -⟩ := List.getElem?_eq_some_iff.mp (load_eq_ok hload)
  omega

/-- What is read at the end of `x` comes first in the rest. -/
theorem load_rest (hs : s = x ++ rest) (hload : load s x.length = .ok b) :
    ∃ l, rest = b :: l := by
  have hget := load_eq_ok hload
  rw [hs, List.getElem?_append_right (Nat.le_refl _), Nat.sub_self] at hget
  cases rest with
  | nil => exact absurd hget (by simp)
  | cons c l => exact ⟨l, by rw [Option.some.inj hget]⟩

theorem set_rest (x l : List UInt8) (b c : UInt8) :
    (x ++ b :: l).set x.length c = x ++ [c] ++ l := by
  simp

/-- A text of up to 100 records leaves room for the record of a key. -/
theorem table_room
    (hscan : scanRecords none [] block =
      done.map (fun record => (record.1, some record.2)) ++ scanRecords (some k) part rest)
    (hcount : (scanRecords none [] block).length ≤ 100) : done.length < 100 := by
  have hpos := List.length_pos_iff.mpr (scanRecords_ne_nil k part rest)
  rw [hscan, List.length_append, List.length_map] at hcount
  omega

theorem Scanned.keyByte {l : List UInt8} (h : Scanned block x (b :: l) done none part events start)
    (h0 : b ≠ 0) (h58 : b ≠ 58) :
    Scanned block (x ++ [b]) l done none (part ++ [b]) events start where
  event := by rw [h.event, List.append_cons]
  slots_length := h.slots_length
  recCount := h.recCount
  table := fun i record hi => ⟨(h.table i record hi).1.append _, (h.table i record hi).2.append _⟩
  pending := fun k hk => absurd hk (by simp)
  start := by
    obtain ⟨-, -, hkey⟩ | ⟨a, rfl, hstart, -⟩ := h.start
    · exact absurd hkey (by simp)
    · exact .inr ⟨a, List.append_assoc .., hstart, fun hkey => absurd hkey (by simp)⟩
  scan := by rw [h.scan, scanRecords_keyByte h0 h58]

theorem Scanned.colon {l : List UInt8} (h : Scanned block x (58 :: l) done none part events start)
    (hcount : (scanRecords none [] block).length ≤ 100) :
    Scanned block (x ++ [0]) l done (some (cstr part)) []
      { events with
        event := events.event.set x.length 0
        slots := events.slots.set events.recCount start } none := by
  have hscan : scanRecords none [] block =
      done.map (fun record => (record.1, some record.2)) ++
        scanRecords (some (cstr part)) [] l := by rw [h.scan, scanRecords_colon]
  have hroom := table_room hscan hcount
  have hslots := h.slots_length
  exact {
    event := by
      change events.event.set x.length 0 = _
      rw [h.event, set_rest]
    slots_length := by rw [List.length_set]; exact hslots
    recCount := h.recCount
    table := by
      intro i record hi
      obtain ⟨hlt, -⟩ := List.getElem?_eq_some_iff.mp hi
      obtain ⟨hkey, hvalue⟩ := h.table i record hi
      have hrec := h.recCount
      exact ⟨hkey.set (by omega) _ _, hvalue.set (by omega) _ _⟩
    pending := by
      intro k hk
      obtain rfl : cstr part = k := Option.some.inj hk
      obtain ⟨-, -, hkey⟩ | ⟨a, rfl, rfl, -⟩ := h.start
      · exact absurd hkey (by simp)
      · rw [h.recCount]
        exact PointsAt.set_self (by omega) ⟨a, part, [], by simp, rfl, rfl⟩
    start := .inl ⟨rfl, rfl, rfl⟩
    scan := hscan }

theorem Scanned.valueByte {l : List UInt8}
    (h : Scanned block x (b :: l) done (some k) part events start) (h0 : b ≠ 0)
    (hend : ¬ (b = 13 ∧ l.head? = some 10)) :
    Scanned block (x ++ [b]) l done (some k) (nextPart part b) events
      (noteStart start b x.length) where
  event := by rw [h.event, List.append_cons]
  slots_length := h.slots_length
  recCount := h.recCount
  table := fun i record hi => ⟨(h.table i record hi).1.append _, (h.table i record hi).2.append _⟩
  pending := fun k hk => (h.pending k hk).append _
  start := by
    obtain ⟨rfl, rfl, -⟩ | ⟨a, rfl, rfl, hpart⟩ := h.start
    · by_cases hb : b = 32
      · exact .inl ⟨by simp [noteStart, hb], if_pos ⟨rfl, hb⟩, rfl⟩
      · have hnext : nextPart [] b = [b] := if_neg fun h => hb h.2
        exact .inr ⟨x, by rw [hnext], by simp [noteStart, hb], by simp [hnext]⟩
    · have hnext : nextPart part b = part ++ [b] := if_neg fun h => hpart rfl h.1
      exact .inr ⟨a, by rw [hnext, List.append_assoc], by simp [noteStart], by simp [hnext]⟩
  scan := by rw [h.scan, scanRecords_valueByte h0 hend]

theorem Scanned.lineEnd {l : List UInt8}
    (h : Scanned block x (13 :: 10 :: b :: l) done (some k) part events start)
    (hcount : (scanRecords none [] block).length ≤ 100) :
    Scanned block (x ++ [0, 0, b]) l (done ++ [(k, cstr part)]) none [b]
      { event := (events.event.set x.length 0).set (x.length + 1) 0
        recCount := events.recCount + 1
        slots := events.slots.set (100 + events.recCount) (some (start.getD x.length)) }
      (some (x.length + 2)) := by
  have hroom := table_room h.scan hcount
  have hrec := h.recCount
  have hslots := h.slots_length
  exact {
    event := by
      change (events.event.set x.length 0).set (x.length + 1) 0 = _
      have hnext := set_rest (x ++ [0]) (b :: l) 10 0
      rw [List.length_append, List.length_singleton] at hnext
      rw [h.event, set_rest, hnext]
      simp
    slots_length := by rw [List.length_set]; exact hslots
    recCount := by rw [List.length_append, List.length_singleton, hrec]
    table := by
      intro i record hi
      rw [List.getElem?_append] at hi
      split at hi
      · next hlt =>
        obtain ⟨hkey, hvalue⟩ := h.table i record hi
        exact ⟨hkey.set (by omega) _ _, hvalue.set (by omega) _ _⟩
      · next hge =>
        obtain ⟨hlt, hrecord⟩ := List.getElem?_eq_some_iff.mp hi
        rw [List.length_singleton] at hlt
        obtain rfl : i = done.length := by omega
        obtain rfl : (k, cstr part) = record := by simpa using hrecord
        refine ⟨(h.pending k rfl).set (by omega) _ _, ?_⟩
        rw [hrec]
        refine PointsAt.set_self (by omega) ?_
        obtain ⟨rfl, rfl, -⟩ | ⟨a, rfl, rfl, -⟩ := h.start
        · exact ⟨x, [], [0, b], by simp, rfl, rfl⟩
        · exact ⟨a, part, [0, b], by simp, rfl, rfl⟩
    pending := fun k hk => absurd hk (by simp)
    start := .inr ⟨x ++ [0, 0], by simp, by simp, fun hkey => absurd hkey (by simp)⟩
    scan := by
      rw [h.scan, scanRecords_lineEnd]
      simp }

/-- The loop reads as the scanner does. -/
theorem loopInvariant_scans (hcount : (scanRecords none [] block).length ≤ 100) :
    LoopInvariant (Scans block) where
  keyByte := by
    rintro events p start b (hpast | ⟨x, rest, done, key, part, rfl, hkey, h⟩) hload h0 h58
    · exact absurd hload (load_past hpast)
    · obtain rfl : key = none := by simpa using hkey
      obtain ⟨l, rfl⟩ := load_rest h.event hload
      exact .inr ⟨x ++ [b], l, done, none, part ++ [b], by simp, rfl, h.keyByte h0 h58⟩
  colon := by
    rintro events p start (hpast | ⟨x, rest, done, key, part, rfl, hkey, h⟩) hload
    · exact absurd hload (load_past hpast)
    · obtain rfl : key = none := by simpa using hkey
      obtain ⟨l, rfl⟩ := load_rest h.event hload
      exact .inr ⟨x ++ [0], l, done, some (cstr part), [], by simp, rfl, h.colon hcount⟩
  valueByte := by
    rintro events p start b (hpast | ⟨x, rest, done, key, part, rfl, hkey, h⟩) hload h0 hend
    · exact absurd hload (load_past hpast)
    · obtain ⟨k, rfl⟩ := Option.isSome_iff_exists.mp (Option.isNone_eq_false_iff.mp hkey.symm)
      obtain ⟨l, rfl⟩ := load_rest h.event hload
      refine .inr ⟨x ++ [b], l, done, some k, nextPart part b, by simp, rfl, h.valueByte h0 ?_⟩
      rintro ⟨hb, hhead⟩
      obtain ⟨l, rfl⟩ : ∃ r, l = 10 :: r := List.head?_eq_some_iff.mp hhead
      refine hend ⟨hb, load_at (h.event.trans (List.append_cons ..)) ?_⟩
      rw [List.length_append, List.length_singleton]
  lineEnd := by
    rintro events p start (hpast | ⟨x, rest, done, key, part, rfl, hkey, h⟩) hcr hlf
    · exact absurd hcr (load_past hpast)
    · obtain ⟨k, rfl⟩ := Option.isSome_iff_exists.mp (Option.isNone_eq_false_iff.mp hkey.symm)
      obtain ⟨l, rfl⟩ := load_rest h.event hcr
      have hnext : x.length + 1 = (x ++ [(13 : UInt8)]).length := length_next rfl _
      rw [hnext] at hlf
      obtain ⟨l, rfl⟩ := load_rest (h.event.trans (List.append_cons ..)) hlf
      cases l with
      | nil =>
        -- nothing is left, and the loop goes on behind the block
        refine .inl ?_
        change ((events.event.set x.length 0).set (x.length + 1) 0).length < x.length + 3
        rw [List.length_set, List.length_set, h.event]
        simp
      | cons b l =>
        exact .inr ⟨x ++ [0, 0, b], l, done ++ [(k, cstr part)], none, [b], by simp, rfl,
          h.lineEnd hcount⟩

/-- The records in the table are these. -/
structure HasRecords (events : AmiEvents) (records : List (List UInt8 × List UInt8)) : Prop where
  recCount : events.recCount = records.length
  strings : ∀ (i : Nat) record, records[i]? = some record →
    events.strSlot i = .ok record.1 ∧ events.strSlot (100 + i) = .ok record.2
  clean : ∀ record ∈ records, 0 ∉ record.1 ∧ 0 ∉ record.2

theorem withValue_append (a b : List (List UInt8 × Option (List UInt8))) :
    withValue (a ++ b) = withValue a ++ withValue b :=
  List.filterMap_append

/-- The parser leaves the records of its text. -/
theorem parseAmievent_records (hslots : events.slots.length = 200)
    (hcount : (scanRecords none [] events.event).length ≤ 100) (he : events.parseAmievent = .ok e) :
    HasRecords e (eventRecords events.event) := by
  have hstart : Scans events.event { events with recCount := 0 } 0 (some 0) true :=
    .inr ⟨[], events.event, [], none, [], rfl, rfl,
      { event := rfl
        slots_length := hslots
        recCount := rfl
        table := fun i record hi => absurd hi (by simp)
        pending := fun k hk => absurd hk (by simp)
        start := .inr ⟨[], rfl, rfl, fun hkey => absurd hkey (by simp)⟩
        scan := rfl }⟩
  obtain ⟨q, start, isHeader, hscans, hnul⟩ :=
    parseLoop_rule (loopInvariant_scans hcount) hstart he
  obtain hpast | ⟨x, rest, done, key, part, rfl, -, h⟩ := hscans
  · exact absurd hnul (load_past hpast)
  · obtain ⟨l, rfl⟩ := load_rest h.event hnul
    have hdone : eventRecords events.event = done := by
      rw [eventRecords, h.scan, scanRecords_nul, withValue_append, withValue_records]
      cases key with
      | none => exact List.append_nil _
      | some k => exact List.append_nil _
    rw [hdone]
    exact {
      recCount := h.recCount
      strings := fun i record hi =>
        ⟨(h.table i record hi).1.strSlot h.event, (h.table i record hi).2.strSlot h.event⟩
      clean := by
        intro record hmem
        obtain ⟨i, hi⟩ := List.mem_iff_getElem?.mp hmem
        exact ⟨(h.table i record hi).1.noNul, (h.table i record hi).2.noNul⟩ }

end Parse

end Tst
