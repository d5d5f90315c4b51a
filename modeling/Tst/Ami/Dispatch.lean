import Mathlib.Data.List.TakeWhile
import Tst.Ami.Scan

/-!
# The two dispatchers

`ami_event()` takes the name of an event from the raw text of a message, and queues a job if a
handler is registered for it. `process_events()` looks for the handler again, with the first
value of the parsed copy.

## Main definitions

- `processEvents` — the handlers that a job calls
- `Names` — the text of a message names an event

## Main results

- `eventName_iff` — the name that `ami_event()` takes
- `dispatchers_agree_iff` — the job calls the handler of that name, unless the text ends there
-/

namespace Tst

open Bytes CString

variable {H : Type}

/-- The loop of `process_events()` over `g_process`, with the handlers that it calls. -/
def processEvents (process : List (List UInt8 × H)) (events : AmiEvents) :
    Except Fault (List H) :=
  match process with
  | [] => .ok []
  | (name, func) :: process => do
    if name = (← events.firstValue) then return [func] else processEvents process events

/-- The text names an event: the first `:` and one blank are before the name, and a line end
or nothing is behind it. -/
def Names (t name : List UInt8) : Prop :=
  ∃ key rest, t = key ++ 58 :: 32 :: (name ++ rest) ∧ 58 ∉ key ∧ 13 ∉ name ∧ 10 ∉ name ∧
    (rest = [] ∨ rest.head? = some 13 ∨ rest.head? = some 10)

section Name

variable {m junk name key t : List UInt8}

theorem cstr_sublist (l : List UInt8) : cstr l <+: l := List.takeWhile_prefix _

/-- What a loop over a text leaves begins with a byte that ends the loop. -/
theorem dropWhile_head (p : UInt8 → Bool) (v : List UInt8) :
    v.dropWhile p = [] ∨ ∃ b, (v.dropWhile p).head? = some b ∧ p b = false := by
  induction v with
  | nil => exact .inl rfl
  | cons b v ih =>
    by_cases hb : p b = true
    · rw [List.dropWhile_cons_of_pos hb]
      exact ih
    · rw [List.dropWhile_cons_of_neg hb]
      exact .inr ⟨b, rfl, by simpa using hb⟩

/-- The name is what `strcspn()` finds. -/
theorem takeWhile_name_end (v : List UInt8) :
    ∃ rest, v = v.takeWhile (fun b => b ≠ 13 && b ≠ 10) ++ rest ∧
      (rest = [] ∨ rest.head? = some 13 ∨ rest.head? = some 10) := by
  refine ⟨v.dropWhile (fun b => b ≠ 13 && b ≠ 10), List.takeWhile_append_dropWhile.symm, ?_⟩
  obtain hnil | ⟨b, hhead, hb⟩ := dropWhile_head (fun b => b ≠ 13 && b ≠ 10) v
  · exact .inl hnil
  · by_cases h13 : b = 13
    · exact .inr (.inl (h13 ▸ hhead))
    · have h10 : b = 10 := by simpa [h13] using hb
      exact .inr (.inr (h10 ▸ hhead))

theorem takeWhile_name {rest : List UInt8} (h13 : 13 ∉ name) (h10 : 10 ∉ name)
    (hrest : rest = [] ∨ rest.head? = some 13 ∨ rest.head? = some 10) :
    (name ++ rest).takeWhile (fun b => b ≠ 13 && b ≠ 10) = name := by
  have hname : ∀ b ∈ name, (b ≠ 13 && b ≠ 10) = true := by
    intro b hb
    have hb13 : b ≠ 13 := fun h => h13 (h ▸ hb)
    have hb10 : b ≠ 10 := fun h => h10 (h ▸ hb)
    simp [hb13, hb10]
  have hstop : rest.takeWhile (fun b => b ≠ 13 && b ≠ 10) = [] := by
    cases rest with
    | nil => rfl
    | cons b rest =>
      have hb : b = 13 ∨ b = 10 := by simpa using hrest
      apply List.takeWhile_cons_of_neg
      obtain rfl | rfl := hb
      · decide
      · decide
  rw [List.takeWhile_append_of_pos hname, hstop, List.append_nil]

/-- Up to its first `:` the text is cut as the string in the buffer is. -/
theorem cutAt_message (junk : List UInt8) (hkey : 58 ∉ key) (ht : cstr m = key ++ 58 :: t) :
    ∃ z, cutAt 58 (m ++ 0 :: junk) = some (key, t ++ z) ∧ cstr (t ++ z) = t ∧
      (t = [] → z.head? = some 0) := by
  have h58 : (58 : UInt8) ≠ 0 := by decide
  have hnul : 0 ∉ key ++ 58 :: t := ht ▸ not_mem_cstr m
  have hkey0 : 0 ∉ key := fun h => hnul (List.mem_append_left _ h)
  have ht0 : 0 ∉ t := fun h => hnul (List.mem_append_right _ (List.mem_cons_of_mem _ h))
  obtain ⟨z, hz, hhead⟩ : ∃ z, m ++ 0 :: junk = cstr m ++ z ∧ z.head? = some 0 := by
    by_cases h0 : 0 ∈ m
    · obtain ⟨y, w, rfl, hy⟩ := List.eq_append_cons_of_mem h0
      refine ⟨0 :: w ++ 0 :: junk, ?_, rfl⟩
      rw [cstr_append hy, List.append_assoc]
    · exact ⟨0 :: junk, by rw [cstr_of_noNul h0], rfl⟩
  obtain ⟨z', rfl⟩ : ∃ z', z = 0 :: z' := by
    cases z with
    | nil => exact absurd hhead (by simp)
    | cons b z =>
      obtain rfl : b = 0 := Option.some.inj hhead
      exact ⟨z, rfl⟩
  refine ⟨0 :: z', (cutAt_eq_some h58).mpr ⟨?_, hkey, hkey0⟩, cstr_append ht0, fun _ => rfl⟩
  rw [hz, ht, List.append_assoc, List.cons_append]

/-- Without a `:` in the text, `strchr()` finds none. -/
theorem eventName_null (h : 58 ∉ cstr m) : eventName (m ++ 0 :: junk) = .error .null := by
  have h58 : (58 : UInt8) ≠ 0 := by decide
  have hcut : cutAt 58 (m ++ 0 :: junk) = none := by
    rw [cutAt_eq_none h58, cstr_append_zero]
    exact h
  rw [eventName, hcut]

/-- The text up to its first `:`. -/
theorem eq_cut_of_mem (h : 58 ∈ t) : ∃ key v, t = key ++ 58 :: v ∧ 58 ∉ key := by
  obtain ⟨key, v, rfl, hkey⟩ := List.eq_append_cons_of_mem h
  exact ⟨key, v, rfl, hkey⟩

/-- A `:` that no blank follows. -/
theorem eventName_none (hkey : 58 ∉ key) (ht : cstr m = key ++ 58 :: t) (h32 : t.head? ≠ some 32) :
    eventName (m ++ 0 :: junk) = .ok none := by
  obtain ⟨z, hcut, -, hz⟩ := cutAt_message junk hkey ht
  rw [eventName, hcut]
  cases t with
  | nil =>
    obtain ⟨z', rfl⟩ : ∃ z', z = 0 :: z' := by
      cases z with
      | nil => exact absurd (hz rfl) (by simp)
      | cons b z =>
        obtain rfl : b = 0 := Option.some.inj (hz rfl)
        exact ⟨z, rfl⟩
    rfl
  | cons b t =>
    have hb : b ≠ 32 := fun h => h32 (congrArg some h)
    simp only [List.cons_append]
    split
    · next heq => exact absurd heq (by simp)
    · next heq =>
      obtain ⟨-, hb', -⟩ : key = _ ∧ b = 32 ∧ _ := by simpa using heq
      exact absurd hb' hb
    · rfl

/-- A `:` and a blank. -/
theorem eventName_blank (hkey : 58 ∉ key) (ht : cstr m = key ++ 58 :: 32 :: t) :
    eventName (m ++ 0 :: junk) = .ok (some (t.takeWhile fun b => b ≠ 13 && b ≠ 10)) := by
  obtain ⟨z, hcut, hcstr, -⟩ := cutAt_message junk hkey ht
  have hrest : cstr (t ++ z) = t := by
    have h32 : (32 : UInt8) ≠ 0 := by decide
    rw [List.cons_append, cstr_cons, if_neg h32] at hcstr
    exact (List.cons.inj hcstr).2
  rw [eventName, hcut]
  change Except.ok (some ((cstr (t ++ z)).takeWhile _)) = _
  rw [hrest]

/-- The name that `ami_event()` takes from a message. -/
theorem eventName_iff (name : List UInt8) :
    eventName (m ++ 0 :: junk) = .ok (some name) ↔ Names (cstr m) name := by
  constructor
  · intro h
    by_cases h58 : 58 ∈ cstr m
    · obtain ⟨key, v, ht, hkey⟩ := eq_cut_of_mem h58
      by_cases h32 : v.head? = some 32
      · obtain ⟨w, rfl⟩ : ∃ w, v = 32 :: w := by
          cases v with
          | nil => exact absurd h32 (by simp)
          | cons b w =>
            obtain rfl : b = 32 := Option.some.inj h32
            exact ⟨w, rfl⟩
        rw [eventName_blank hkey ht] at h
        obtain rfl := Option.some.inj (Except.ok.inj h)
        obtain ⟨rest, hw, hrest⟩ := takeWhile_name_end w
        refine ⟨key, rest, ht.trans (by rw [← hw]), hkey, ?_, ?_, hrest⟩
        · intro h13
          simpa using List.mem_takeWhile_imp h13
        · intro h10
          simpa using List.mem_takeWhile_imp h10
      · rw [eventName_none hkey ht h32] at h
        exact absurd h (by simp)
    · rw [eventName_null h58] at h
      exact absurd h (by simp)
  · rintro ⟨key, rest, ht, hkey, h13, h10, hrest⟩
    rw [eventName_blank hkey ht, takeWhile_name h13 h10 hrest]

theorem eventName_ok (junk : List UInt8) (h : 58 ∈ cstr m) : ∃ name, eventName (m ++ 0 :: junk) = .ok name := by
  obtain ⟨key, v, ht, hkey⟩ := eq_cut_of_mem h
  cases v with
  | nil => exact ⟨_, eventName_none hkey ht (by simp)⟩
  | cons b v =>
    by_cases h32 : b = 32
    · subst h32
      exact ⟨_, eventName_blank hkey ht⟩
    · exact ⟨_, eventName_none hkey ht (by simpa using h32)⟩

end Name

-- ════════════════════════════════════════════════════════════════════════
-- The copy of a message
-- ════════════════════════════════════════════════════════════════════════

section Copy

variable {m junk block : List UInt8} {n : Nat}

/-- A copy that is shorter than its block, which has a NUL there. -/
theorem strncpy_eq (hn : (cstr m).length ≤ n) (hblock : block[n]? = some 0) :
    strncpy block m n =
      cstr m ++ 0 :: (List.replicate (n - (cstr m).length) 0 ++ block.drop (n + 1)) := by
  obtain ⟨hlt, hzero⟩ := List.getElem?_eq_some_iff.mp hblock
  have hlen : (cstr m ++ List.replicate (n - (cstr m).length) 0).length = n := by
    rw [List.length_append, List.length_replicate]
    omega
  have hdrop : block.drop n = 0 :: block.drop (n + 1) := by
    rw [List.drop_eq_getElem_cons hlt, hzero]
  rw [strncpy, List.take_of_length_le hn, splice_eq (by rw [hlen]; omega), hlen, List.take_zero,
    List.nil_append, Nat.zero_add, hdrop, List.append_assoc, ← List.cons_append,
    ← List.replicate_succ, ← List.singleton_append, ← List.append_assoc (List.replicate _ _),
    ← List.replicate_succ']

/-- A job's copy of a message. -/
theorem strncpy_job (junk : List UInt8) (hm : m.length < 4096) :
    ∃ z, strncpy (List.replicate 4096 0) (m ++ 0 :: junk) m.length = cstr m ++ 0 :: z ∧
      ∀ b ∈ z, b = 0 := by
  have hle : (cstr (m ++ 0 :: junk)).length ≤ m.length := by
    rw [cstr_append_zero]
    exact (cstr_sublist m).length_le
  have hblock : (List.replicate 4096 (0 : UInt8))[m.length]? = some 0 := by
    rw [List.getElem?_replicate, if_pos hm]
  refine ⟨_, (strncpy_eq hle hblock).trans (by rw [cstr_append_zero]), ?_⟩
  intro b hb
  rw [List.drop_replicate] at hb
  obtain hb | hb := List.mem_append.mp hb
  · exact List.eq_of_mem_replicate hb
  · exact List.eq_of_mem_replicate hb

end Copy

-- ════════════════════════════════════════════════════════════════════════
-- The first record
-- ════════════════════════════════════════════════════════════════════════

section First

variable {events : AmiEvents} {key w z block : List UInt8}

/-- The first record of a block, and where the parser goes on. -/
theorem parseAmievent_first (hs : events.event = key ++ 58 :: (w ++ 13 :: 10 :: z))
    (hkey : ∀ b ∈ key, b ≠ 0 ∧ b ≠ 58) (hw : ∀ b ∈ w, b ≠ 0 ∧ b ≠ 13)
    (hslots : events.slots.length = 200) :
    ∃ fuel, events.parseAmievent = AmiEvents.parseLoop fuel
      { event := key ++ 0 :: (w ++ 0 :: 0 :: z)
        recCount := 1
        slots := (events.slots.set 0 (some 0)).set 100
          (some (key.length + 1 + (w.takeWhile (· = 32)).length)) }
      (key.length + 1 + w.length + 3) (some (key.length + 1 + w.length + 2)) true := by
  have hfuel : events.event.length + 1 = z.length + 2 + (w.length + 1) + (key.length + 1) := by
    simp only [hs, List.length_append, List.length_cons]
    omega
  have hs₁ : ({ events with recCount := 0 } : AmiEvents).event =
      [] ++ (key ++ 58 :: (w ++ 13 :: 10 :: z)) := hs
  have hs₂ : ({ events with recCount := 0 } : AmiEvents).event =
      key ++ 58 :: (w ++ 13 :: 10 :: z) := hs
  have hs₃ : key ++ 0 :: (w ++ 13 :: 10 :: z) = key ++ [0] ++ (w ++ 13 :: 10 :: z) :=
    List.append_cons ..
  have hs₄ : key ++ 0 :: (w ++ 13 :: 10 :: z) = key ++ [0] ++ w ++ 13 :: 10 :: z := by
    rw [hs₃, List.append_assoc _ w]
  have hp : key.length + 1 = (key ++ [(0 : UInt8)]).length := length_next rfl _
  have hp' : key.length + 1 + w.length = (key ++ [(0 : UInt8)] ++ w).length := by
    rw [List.length_append, hp]
  have hroom : 100 + 0 < (events.slots.set 0 (some 0)).length := by
    rw [List.length_set]
    omega
  refine ⟨z.length + 2, ?_⟩
  rw [AmiEvents.parseAmievent, hfuel, parseLoop_key (p := 0) hs₁ rfl hkey, Nat.zero_add,
    endKey_at hs₂ rfl (by change 0 < events.slots.length; omega), ok_bind,
    parseLoop_text hs₃ hp hw, endValue_at hs₄ hp' hroom, ok_bind]
  simp only [List.append_assoc, List.cons_append, List.nil_append]

/-- Behind the first record: its value is kept, what follows has not been changed, and there
are no more records than line ends. -/
structure FirstKept (block front : List UInt8) (v : Nat) (events : AmiEvents) (p : Nat) :
    Prop where
  slot : events.slots[100]? = some (some v)
  kept : events.event.take front.length = front
  front_le : front.length ≤ p
  rest : ∀ i, p ≤ i → events.event[i]? = block[i]?
  records : 1 ≤ events.recCount
  lines : events.recCount ≤ (block.take p).count 10

theorem count_take_le {l : List UInt8} {p n : Nat} (b : UInt8) (hle : p ≤ n) :
    (l.take p).count b ≤ (l.take n).count b :=
  (List.take_sublist_take_left hle).count_le b

/-- No more than 100 line ends are before a `:`, so that no key is stored over the value. -/
theorem loopInvariant_first {front : List UInt8} {v : Nat}
    (hlines : ∀ p, block[p]? = some 58 → (block.take p).count 10 < 100) :
    LoopInvariant fun events p _ _ => FirstKept block front v events p where
  keyByte := by
    intro events p start b h _ _ _
    exact { h with
      front_le := Nat.le_succ_of_le h.front_le
      rest := fun i hi => h.rest i (by omega)
      lines := h.lines.trans (count_take_le 10 (Nat.le_succ p)) }
  colon := by
    intro events p start h hload
    have hp : block[p]? = some 58 := by
      rw [← h.rest p (Nat.le_refl p)]
      exact load_eq_ok hload
    have hcount := hlines p hp
    have hle := h.lines
    have hne : events.recCount ≠ 100 := by omega
    exact {
      slot := by
        rw [List.getElem?_set_ne hne]
        exact h.slot
      kept := by
        rw [List.take_set_of_le h.front_le]
        exact h.kept
      front_le := Nat.le_succ_of_le h.front_le
      rest := by
        intro i hi
        change (events.event.set p 0)[i]? = _
        rw [List.getElem?_set_ne (by omega)]
        exact h.rest i (by omega)
      records := h.records
      lines := hle.trans (count_take_le 10 (Nat.le_succ p)) }
  valueByte := by
    intro events p start b h _ _ _
    exact { h with
      front_le := Nat.le_succ_of_le h.front_le
      rest := fun i hi => h.rest i (by omega)
      lines := h.lines.trans (count_take_le 10 (Nat.le_succ p)) }
  lineEnd := by
    intro events p start h _ hload
    have hp : block[p + 1]? = some 10 := by
      rw [← h.rest (p + 1) (by omega)]
      exact load_eq_ok hload
    have hcount : (block.take p).count 10 + 1 ≤ (block.take (p + 3)).count 10 := by
      have htake : block.take (p + 1 + 1) = block.take (p + 1) ++ [10] := by
        rw [List.take_add_one, hp]
        rfl
      calc (block.take p).count 10 + 1 ≤ (block.take (p + 1)).count 10 + 1 :=
            Nat.succ_le_succ (count_take_le 10 (Nat.le_succ p))
        _ = (block.take (p + 1 + 1)).count 10 := by
            rw [htake, List.count_append]
            rfl
        _ ≤ (block.take (p + 3)).count 10 := count_take_le 10 (by omega)
    have hpos := h.records
    have hle := h.lines
    have hfront := h.front_le
    have hne : 100 + events.recCount ≠ 100 := by omega
    exact {
      slot := by
        rw [List.getElem?_set_ne hne]
        exact h.slot
      kept := by
        rw [List.take_set_of_le (by omega), List.take_set_of_le hfront]
        exact h.kept
      front_le := by omega
      rest := by
        intro i hi
        change ((events.event.set p 0).set (p + 1) 0)[i]? = _
        rw [List.getElem?_set_ne (by omega), List.getElem?_set_ne (by omega)]
        exact h.rest i (by omega)
      records := Nat.le_succ_of_le hpos
      lines := by
        change events.recCount + 1 ≤ _
        omega }

/-- The first value of a block. -/
theorem firstValue_of_first {name : List UInt8} {e : AmiEvents}
    (hs : events.event = key ++ 58 :: 32 :: (name ++ 13 :: 10 :: z))
    (hkey : ∀ b ∈ key, b ≠ 0 ∧ b ≠ 58) (hname : ∀ b ∈ name, b ≠ 0 ∧ b ≠ 13)
    (hhead : name.head? ≠ some 32) (hslots : events.slots.length = 200)
    (hlines : ∀ p, events.event[p]? = some 58 → (events.event.take p).count 10 < 100)
    (he : events.parseAmievent = .ok e) : e.firstValue = .ok name := by
  let front : List UInt8 := key ++ 0 :: 32 :: name ++ [0, 0]
  let front' : List UInt8 := key ++ 58 :: 32 :: name ++ [13, 10]
  have hw : ∀ b ∈ (32 : UInt8) :: name, b ≠ 0 ∧ b ≠ 13 := by
    intro b hb
    obtain rfl | hb := List.mem_cons.mp hb
    · decide
    · exact hname b hb
  have hblanks : ((32 : UInt8) :: name).takeWhile (· = 32) = [32] := by
    cases name with
    | nil => rfl
    | cons b name =>
      have hb : b ≠ 32 := fun h => hhead (congrArg some h)
      simp [hb]
  have hfront : front.length = key.length + name.length + 4 := by
    simp only [front, List.length_append, List.length_cons, List.length_nil]
    omega
  have hfront' : front'.length = key.length + name.length + 4 := by
    simp only [front', List.length_append, List.length_cons, List.length_nil]
    omega
  have hblock : events.event = front' ++ z := by
    rw [hs]
    simp only [front', List.append_assoc, List.cons_append, List.nil_append]
  have hnext : key ++ 0 :: (32 :: name ++ 0 :: 0 :: z) = front ++ z := by
    simp only [front, List.append_assoc, List.cons_append, List.nil_append]
  obtain ⟨fuel, hfirst⟩ := parseAmievent_first (w := 32 :: name) hs hkey hw hslots
  rw [hfirst, hblanks, hnext] at he
  have hlen : (32 :: name).length = name.length + 1 := rfl
  have hstart : FirstKept events.event front (key.length + 2)
      { event := front ++ z
        recCount := 1
        slots := (events.slots.set 0 (some 0)).set 100 (some (key.length + 2)) }
      (key.length + 1 + (32 :: name).length + 3) :=
    { slot := List.getElem?_set_self (by rw [List.length_set]; omega)
      kept := List.take_left
      front_le := by omega
      rest := by
        intro i hi
        rw [hblock, List.getElem?_append_right (by omega), List.getElem?_append_right (by omega),
          hfront, hfront']
      records := Nat.le_refl 1
      lines := by
        apply List.count_pos_iff.mpr
        rw [hblock, List.take_append]
        apply List.mem_append_left
        rw [List.take_of_length_le (by omega)]
        exact List.mem_append_right _ (by decide) }
  obtain ⟨q, start, isHeader, h, -⟩ := parseLoop_rule (loopInvariant_first hlines) hstart he
  have hevent : e.event = key ++ [0, 32] ++ (name ++ 0 :: 0 :: e.event.drop front.length) := by
    conv_lhs => rw [← List.take_append_drop front.length e.event, h.kept]
    simp only [front, List.append_assoc, List.cons_append, List.nil_append]
  have hname0 : 0 ∉ name := fun h0 => (hname 0 h0).1 rfl
  rw [AmiEvents.firstValue, strSlot_eq h.slot]
  exact str_text hevent (by rw [List.length_append]; rfl) hname0

/-- As long as no line end is behind the first `:`, there is no record. -/
theorem loopInvariant_noRecord {slot : Option (Option Nat)} (hkey : 58 ∉ key)
    (hblock : block = key ++ 58 :: w)
    (hend : ∀ p, key.length < p → ¬ (block[p]? = some 13 ∧ block[p + 1]? = some 10)) :
    LoopInvariant fun events p _ isHeader => events.slots[100]? = slot ∧ events.recCount = 0 ∧
      (p ≤ key.length ↔ isHeader = true) ∧ ∀ i, p ≤ i → events.event[i]? = block[i]? where
  keyByte := by
    rintro events p start b ⟨hslot, hzero, hle, hrest⟩ hload - h58
    have hp : p ≤ key.length := hle.mpr rfl
    have hne : p ≠ key.length := by
      rintro rfl
      have hcolon := hrest _ (Nat.le_refl _)
      rw [load_eq_ok hload, hblock, List.getElem?_append_right (Nat.le_refl _), Nat.sub_self]
        at hcolon
      exact h58 (Option.some.inj hcolon)
    exact ⟨hslot, hzero, ⟨fun _ => rfl, fun _ => by omega⟩, fun i hi => hrest i (by omega)⟩
  colon := by
    rintro events p start ⟨hslot, hzero, hle, hrest⟩ hload
    have hp : p ≤ key.length := hle.mpr rfl
    have heq : p = key.length := by
      obtain hlt | heq := Nat.lt_or_eq_of_le hp
      · have hcolon := hrest _ (Nat.le_refl _)
        rw [load_eq_ok hload, hblock, List.getElem?_append_left hlt] at hcolon
        exact absurd (List.mem_of_getElem? hcolon.symm) hkey
      · exact heq
    refine ⟨?_, hzero, ⟨fun h => by omega, fun h => absurd h Bool.false_ne_true⟩, fun i hi => ?_⟩
    · change (events.slots.set events.recCount start)[100]? = slot
      rw [hzero, List.getElem?_set_ne (by omega)]
      exact hslot
    · change (events.event.set p 0)[i]? = _
      rw [List.getElem?_set_ne (by omega)]
      exact hrest i (by omega)
  valueByte := by
    rintro events p start b ⟨hslot, hzero, hle, hrest⟩ - - -
    have hp : ¬ p ≤ key.length := fun h => Bool.false_ne_true (hle.mp h)
    exact ⟨hslot, hzero, ⟨fun h => by omega, fun h => absurd h Bool.false_ne_true⟩,
      fun i hi => hrest i (by omega)⟩
  lineEnd := by
    rintro events p start ⟨hslot, hzero, hle, hrest⟩ h13 h10
    have hp : ¬ p ≤ key.length := fun h => Bool.false_ne_true (hle.mp h)
    refine absurd ?_ (hend p (by omega))
    rw [← hrest p (Nat.le_refl p), ← hrest (p + 1) (by omega)]
    exact ⟨load_eq_ok h13, load_eq_ok h10⟩

/-- The parse of such a block. -/
theorem parse_noRecord (events : AmiEvents) {e : AmiEvents} (hkey : 58 ∉ key) (hs : events.event = key ++ 58 :: w)
    (hend : ∀ p, key.length < p →
      ¬ (events.event[p]? = some 13 ∧ events.event[p + 1]? = some 10))
    (he : events.parseAmievent = .ok e) :
    e.recCount = 0 ∧ e.slots[100]? = events.slots[100]? := by
  have hstart : ({ events with recCount := 0 } : AmiEvents).slots[100]? = events.slots[100]? ∧
      ({ events with recCount := 0 } : AmiEvents).recCount = 0 ∧
      (0 ≤ key.length ↔ true = true) ∧ ∀ i, 0 ≤ i →
        ({ events with recCount := 0 } : AmiEvents).event[i]? = events.event[i]? :=
    ⟨rfl, rfl, ⟨fun _ => rfl, fun _ => Nat.zero_le _⟩, fun _ _ => rfl⟩
  obtain ⟨q, start, isHeader, ⟨hslot, hzero, -⟩, -⟩ :=
    parseLoop_rule (loopInvariant_noRecord hkey hs hend) hstart he
  exact ⟨hzero, hslot⟩

end First

-- ════════════════════════════════════════════════════════════════════════
-- A message of whole lines
-- ════════════════════════════════════════════════════════════════════════

/-- A message in which CR and LF are at the line ends only. -/
def amiText (lines : List (List UInt8)) : List UInt8 :=
  lines.flatMap (· ++ [13, 10]) ++ [13, 10]

section Lines

variable {l : List UInt8} {lines : List (List UInt8)} {p : Nat}

theorem amiText_cons (l : List UInt8) (lines : List (List UInt8)) :
    amiText (l :: lines) = l ++ 13 :: 10 :: amiText lines := by
  simp only [amiText, List.flatMap_cons, List.append_assoc, List.cons_append, List.nil_append]

/-- A place is in the first line, in its line end, or behind it. -/
theorem line_cases (l : List UInt8) (p : Nat) :
    p < l.length ∨ p = l.length ∨ p = l.length + 1 ∨ ∃ q, p = l.length + 2 + q := by
  by_cases hlt : p < l.length
  · exact .inl hlt
  · by_cases heq : p = l.length
    · exact .inr (.inl heq)
    · by_cases heq' : p = l.length + 1
      · exact .inr (.inr (.inl heq'))
      · exact .inr (.inr (.inr ⟨p - l.length - 2, by omega⟩))

theorem getElem?_line (l r : List UInt8) :
    (∀ p < l.length, (l ++ 13 :: 10 :: r)[p]? = l[p]?) ∧
      (l ++ 13 :: 10 :: r)[l.length]? = some 13 ∧
      (l ++ 13 :: 10 :: r)[l.length + 1]? = some 10 ∧
      ∀ q, (l ++ 13 :: 10 :: r)[l.length + 2 + q]? = r[q]? := by
  refine ⟨fun p hp => List.getElem?_append_left hp, ?_, ?_, fun q => ?_⟩
  · rw [List.getElem?_append_right (Nat.le_refl _), Nat.sub_self]
    rfl
  · have hidx : l.length + 1 - l.length = 1 := by omega
    rw [List.getElem?_append_right (Nat.le_succ _), hidx]
    rfl
  · have hidx : l.length + 2 + q - l.length = q + 1 + 1 := by omega
    rw [List.getElem?_append_right (by omega), hidx]
    rfl

/-- Behind every CR there is an LF, before every LF a CR, and before every `:` fewer line ends
than there are lines. -/
theorem amiText_at (hlines : ∀ l ∈ lines, 13 ∉ l ∧ 10 ∉ l) (p : Nat) :
    ((amiText lines)[p]? = some 13 → (amiText lines)[p + 1]? = some 10) ∧
      ((amiText lines)[p + 1]? = some 10 → (amiText lines)[p]? = some 13) ∧
      ((amiText lines)[p]? = some 58 → ((amiText lines).take p).count 10 < lines.length) := by
  induction lines generalizing p with
  | nil =>
    change ([13, 10][p]? = some 13 → [13, 10][p + 1]? = some 10) ∧
      ([13, 10][p + 1]? = some 10 → [13, 10][p]? = some 13) ∧
      ([13, 10][p]? = some 58 → ([13, 10].take p).count 10 < 0)
    obtain rfl | rfl | ⟨q, rfl⟩ : p = 0 ∨ p = 1 ∨ ∃ q, p = q + 2 := by
      obtain h | h | h : p = 0 ∨ p = 1 ∨ 2 ≤ p := by omega
      · exact .inl h
      · exact .inr (.inl h)
      · exact .inr (.inr ⟨p - 2, by omega⟩)
    · simp
    · simp
    · simp
  | cons l lines ih =>
    obtain ⟨⟨h13, h10⟩, hrest⟩ := List.forall_mem_cons.mp hlines
    obtain ⟨hin, hcr, hlf, hbehind⟩ := getElem?_line l (amiText lines)
    have hnot : ∀ b, b ∉ l → ∀ q < l.length, l[q]? ≠ some b :=
      fun b hb q _ hq => hb (List.mem_of_getElem? hq)
    rw [amiText_cons]
    obtain hlt | rfl | rfl | ⟨q, rfl⟩ := line_cases l p
    · refine ⟨fun h => absurd (hin p hlt ▸ h) (hnot 13 h13 p hlt), fun h => ?_, fun _ => ?_⟩
      · obtain hnext | hnext : p + 1 < l.length ∨ p + 1 = l.length := by omega
        · exact absurd (hin _ hnext ▸ h) (hnot 10 h10 _ hnext)
        · rw [hnext, hcr] at h
          exact absurd h (by decide)
      · have hfirst : 10 ∉ (l ++ 13 :: 10 :: amiText lines).take p := by
          rw [List.take_append_of_le_length hlt.le]
          exact fun h => h10 (List.mem_of_mem_take h)
        rw [List.count_eq_zero.mpr hfirst]
        exact Nat.succ_pos _
    · refine ⟨fun _ => hlf, fun _ => hcr, fun h => ?_⟩
      rw [hcr] at h
      exact absurd h (by decide)
    · have hnext := hbehind 0
      refine ⟨fun h => ?_, fun h => ?_, fun h => ?_⟩
      · rw [hlf] at h
        exact absurd h (by decide)
      · -- a message does not begin with LF
        change (l ++ 13 :: 10 :: amiText lines)[l.length + 2 + 0]? = some 10 at h
        rw [hnext] at h
        cases lines with
        | nil => exact absurd h (by decide)
        | cons l' lines =>
          rw [amiText_cons] at h
          obtain ⟨-, h10'⟩ := hrest l' (List.mem_cons_self ..)
          cases l' with
          | nil => exact absurd h (by simp)
          | cons b l' =>
            obtain rfl : b = 10 := Option.some.inj h
            exact absurd (List.mem_cons_self ..) h10'
      · rw [hlf] at h
        exact absurd h (by decide)
    · obtain ⟨hcr', hlf', hcolon⟩ := ih hrest q
      have hnext := hbehind (q + 1)
      rw [← Nat.add_assoc] at hnext
      rw [hbehind q, hnext]
      refine ⟨hcr', hlf', fun h => ?_⟩
      have htake : (l ++ 13 :: 10 :: amiText lines).take (l.length + 2 + q) =
          l ++ 13 :: 10 :: (amiText lines).take q := by
        have hidx : l.length + 2 + q - l.length = q + 1 + 1 := by omega
        rw [List.take_append, List.take_of_length_le (by omega), hidx]
        rfl
      have hcount : (l ++ 13 :: 10 :: (amiText lines).take q).count 10 =
          ((amiText lines).take q).count 10 + 1 := by
        rw [List.count_append, List.count_eq_zero.mpr h10, Nat.zero_add,
          List.count_cons_of_ne (by decide), List.count_cons_self]
      rw [htake, hcount, List.length_cons]
      exact Nat.succ_lt_succ (hcolon h)

theorem getElem?_middle (x y : List UInt8) (b : UInt8) : (x ++ b :: y)[x.length]? = some b := by
  rw [List.getElem?_append_right (Nat.le_refl _), Nat.sub_self]
  rfl

/-- What stands behind a CR of a message, and before an LF. -/
theorem amiText_cr {x y : List UInt8} (hlines : ∀ l ∈ lines, 13 ∉ l ∧ 10 ∉ l)
    (h : amiText lines = x ++ 13 :: y) : y.head? = some 10 := by
  obtain ⟨hcr, -⟩ := amiText_at hlines x.length
  have hlf := hcr (by rw [h, getElem?_middle])
  rw [h, List.append_cons, List.getElem?_append_right (by simp)] at hlf
  simpa [List.head?_eq_getElem?] using hlf

theorem amiText_lf {x y : List UInt8} {b : UInt8} (hlines : ∀ l ∈ lines, 13 ∉ l ∧ 10 ∉ l)
    (h : amiText lines = x ++ b :: 10 :: y) : b = 13 := by
  obtain ⟨-, hlf, -⟩ := amiText_at hlines x.length
  have h10 : (amiText lines)[x.length + 1]? = some 10 := by
    rw [h, List.append_cons]
    have hmiddle := getElem?_middle (x ++ [b]) y 10
    rwa [List.length_append] at hmiddle
  have h13 := hlf h10
  rw [h, getElem?_middle] at h13
  exact Option.some.inj h13

/-- The string in a buffer, and what it leaves: nothing, or its NUL. -/
theorem cstr_split (m : List UInt8) :
    ∃ tail, m = cstr m ++ tail ∧ (tail = [] ∨ tail.head? = some 0) := by
  refine ⟨_, List.takeWhile_append_dropWhile.symm, ?_⟩
  obtain hnil | ⟨b, hb, hb0⟩ := dropWhile_head (fun b => b ≠ 0) m
  · exact .inl hnil
  · have hzero : b = 0 := by simpa using hb0
    exact .inr (hzero ▸ hb)

/-- A name that a line end or nothing follows: CR and LF are there together. -/
theorem names_cases {name : List UInt8} (hlines : ∀ l ∈ lines, 13 ∉ l ∧ 10 ∉ l)
    (h : Names (cstr (amiText lines)) name) :
    ∃ key, 58 ∉ key ∧ (cstr (amiText lines) = key ++ 58 :: 32 :: name ∨
      ∃ z, cstr (amiText lines) = key ++ 58 :: 32 :: (name ++ 13 :: 10 :: z)) := by
  obtain ⟨key, rest, ht, hkey, h13, -, hrest⟩ := h
  obtain ⟨tail, htail, hnul⟩ := cstr_split (amiText lines)
  refine ⟨key, hkey, ?_⟩
  cases rest with
  | nil =>
    rw [List.append_nil] at ht
    exact .inl ht
  | cons b rest =>
    right
    rw [ht] at htail
    have hb : b = 13 ∨ b = 10 := by simpa using hrest
    obtain rfl | rfl := hb
    · have hcut : amiText lines = (key ++ 58 :: 32 :: name) ++ 13 :: (rest ++ tail) := by
        rw [htail]
        simp only [List.append_assoc, List.cons_append]
      have hlf := amiText_cr hlines hcut
      cases rest with
      | nil =>
        obtain rfl | hzero := hnul
        · exact absurd hlf (by simp)
        · rw [List.nil_append, hzero] at hlf
          exact absurd hlf (by decide)
      | cons c z =>
        obtain rfl : c = 10 := Option.some.inj hlf
        exact ⟨z, ht⟩
    · -- the byte before an LF is a CR, but there is none in a name
      obtain rfl | ⟨name, c, rfl⟩ := List.eq_nil_or_concat name
      · have hcut : amiText lines = (key ++ [58]) ++ 32 :: 10 :: (rest ++ tail) := by
          rw [htail]
          simp only [List.append_assoc, List.cons_append, List.nil_append]
        exact absurd (amiText_lf hlines hcut) (by decide)
      · have hcut : amiText lines =
            (key ++ 58 :: 32 :: name) ++ c :: 10 :: (rest ++ tail) := by
          rw [htail]
          simp only [List.concat_eq_append, List.append_assoc, List.cons_append, List.nil_append]
        have hc := amiText_lf hlines hcut
        exact absurd (by simp [hc]) h13

end Lines

-- ════════════════════════════════════════════════════════════════════════
-- Agreement
-- ════════════════════════════════════════════════════════════════════════

section Agree

variable {process : List (List UInt8 × H)} {events : AmiEvents} {name : List UInt8}

/-- The job calls the first handler of that name. -/
theorem processEvents_ok (h : events.firstValue = .ok name) :
    processEvents process events =
      .ok ((process.find? fun e => e.1 = name).map Prod.snd).toList := by
  induction process with
  | nil => rfl
  | cons e process ih =>
    obtain ⟨first, func⟩ := e
    rw [processEvents, h, ok_bind]
    by_cases hname : first = name
    · have hfind : ((first, func) :: process).find? (fun e => e.1 = name) = some (first, func) :=
        List.find?_cons_of_pos (by simpa using hname)
      rw [if_pos hname, hfind]
      rfl
    · have hfind : ((first, func) :: process).find? (fun e => e.1 = name) =
          process.find? fun e => e.1 = name :=
        List.find?_cons_of_neg (by simpa using hname)
      rw [if_neg hname, hfind]
      exact ih

/-- A first value that is NULL is compared with the first name. -/
theorem processEvents_null {e : List UInt8 × H} (he : e ∈ process)
    (h : events.firstValue = .error .null) : processEvents process events = .error .null := by
  cases process with
  | nil => exact absurd he List.not_mem_nil
  | cons e process =>
    obtain ⟨first, func⟩ := e
    rw [processEvents, h, error_bind]

/-- How a message comes to be queued. -/
theorem checkHandler_queued {s : List UInt8} {n : Nat} {handlers : List (List UInt8)}
    (h : checkHandler s n handlers = .ok (.queued name events)) :
    eventName s = .ok (some name) ∧ name ∈ handlers ∧
      ({ event := strncpy (List.replicate 4096 0) s n } : AmiEvents).parseAmievent =
        .ok events := by
  obtain ⟨found, hfound, h⟩ := bind_eq_ok.mp h
  cases found with
  | none => exact absurd (Except.ok.inj h) (by simp)
  | some found =>
    change (if handlers.contains found then _ else _) = _ at h
    split at h
    · next hmem =>
      obtain ⟨e, he, h⟩ := bind_eq_ok.mp h
      obtain ⟨rfl, rfl⟩ : found = name ∧ e = events := by simpa using Except.ok.inj h
      exact ⟨hfound, by simpa using hmem, he⟩
    · exact absurd (Except.ok.inj h) (by simp)

theorem handleMessage_queued {s : List UInt8} {n : Nat} {handlers : List (List UInt8)}
    {view : ManageView} (h : handleMessage s n handlers view = .ok (.queued name events)) :
    checkHandler s n handlers = .ok (.queued name events) := by
  rw [handleMessage] at h
  split at h
  · obtain ⟨resp, -, h⟩ := bind_eq_ok.mp h
    obtain ⟨currId, -, h⟩ := bind_eq_ok.mp h
    split at h
    · exact h
    · split at h
      · exact absurd (Except.ok.inj h) (by simp)
      · obtain ⟨resp', -, h⟩ := bind_eq_ok.mp h
        exact absurd (Except.ok.inj h) (by simp)
  · exact h

/-- In the copy of a message, too, few line ends are before a `:`. -/
theorem copy_lines {lines : List (List UInt8)} {z : List UInt8} {p : Nat}
    (hlines : ∀ l ∈ lines, 13 ∉ l ∧ 10 ∉ l) (hz : ∀ b ∈ z, b = 0)
    (hp : (cstr (amiText lines) ++ 0 :: z)[p]? = some 58) :
    ((cstr (amiText lines) ++ 0 :: z).take p).count 10 < lines.length := by
  by_cases hlt : p < (cstr (amiText lines)).length
  · obtain ⟨tail, htail⟩ := cstr_sublist (amiText lines)
    have hat : (amiText lines)[p]? = some 58 := by
      rw [List.getElem?_append_left hlt] at hp
      rw [← htail, List.getElem?_append_left hlt, hp]
    have htake : (cstr (amiText lines) ++ 0 :: z).take p = (amiText lines).take p := by
      conv_rhs => rw [← htail]
      rw [List.take_append_of_le_length hlt.le, List.take_append_of_le_length hlt.le]
    obtain ⟨-, -, hcount⟩ := amiText_at hlines p
    rw [htake]
    exact hcount hat
  · rw [List.getElem?_append_right (Nat.not_lt.mp hlt)] at hp
    have hmem := List.mem_of_getElem? hp
    obtain h0 | hmem := List.mem_cons.mp hmem
    · exact absurd h0 (by decide)
    · exact absurd (hz 58 hmem) (by decide)

/-- A message that names an event of the table is queued if it can be parsed. -/
theorem checkHandler_names (m junk name : List UInt8) (handlers : List (List UInt8))
    (hm : m.length < 4096) (hnames : Names (cstr m) name) (ht : Parsable (cstr m))
    (hmem : name ∈ handlers) :
    ∃ e z, checkHandler (m ++ 0 :: junk) m.length handlers = .ok (.queued name e) ∧
      (∀ b ∈ z, b = 0) ∧ ({ event := cstr m ++ 0 :: z } : AmiEvents).parseAmievent = .ok e := by
  have hcontains : handlers.contains name = true := by simpa using hmem
  obtain ⟨z, hcopy, hz⟩ := strncpy_job junk hm
  obtain ⟨e, -, -, -, hchecked, -⟩ := parseChecked_ok { event := cstr m ++ 0 :: z } rfl
    (not_mem_cstr m) ht List.length_replicate
  have hparse := parseAmievent_of_checked hchecked
  refine ⟨e, z, ?_, hz, hparse⟩
  rw [checkHandler, (eventName_iff name).mpr hnames, ok_bind]
  change (if handlers.contains name then _ else _) = _
  rw [if_pos hcontains]
  change (({ event := strncpy (List.replicate 4096 0) (m ++ 0 :: junk) m.length } :
    AmiEvents).parseAmievent >>= _) = _
  rw [hcopy, hparse]
  rfl

/-- Without a call that waits every message goes to the handlers. -/
theorem handleMessage_idle {s : List UInt8} {n : Nat} {handlers : List (List UInt8)}
    (view : ManageView) (hview : view.pending = false) :
    handleMessage s n handlers view = checkHandler s n handlers := by
  have hpending : ¬ (view.pending = true ∧ (textResponse ++ [58]).isPrefixOf s = true ∧
      view.awaited = true) := by
    rw [hview]
    exact fun h => absurd h.1 Bool.false_ne_true
  rw [handleMessage, if_neg hpending]

/-- A job is queued for a text that ends with a name, and its first value is NULL. -/
theorem queued_null (m junk key name : List UInt8) (handlers : List (List UInt8))
    (hm : m.length < 4096) (hkey : 58 ∉ key) (ht : cstr m = key ++ 58 :: 32 :: name)
    (h13 : 13 ∉ name) (h10 : 10 ∉ name) (hmem : name ∈ handlers) :
    ∃ e, checkHandler (m ++ 0 :: junk) m.length handlers = .ok (.queued name e) ∧
      e.firstValue = .error .null := by
  have hnames : Names (cstr m) name :=
    ⟨key, [], by rw [ht, List.append_nil], hkey, h13, h10, .inl rfl⟩
  have hparsable : Parsable (cstr m) := by
    refine ⟨1, by decide, ?_⟩
    rw [ht, scan_key hkey, scan_open]
    intro hpair
    have hmem : 13 ∈ (32 : UInt8) :: name := hpair.subset (List.mem_cons_self ..)
    obtain h | h := List.mem_cons.mp hmem
    · exact absurd h (by decide)
    · exact h13 h
  obtain ⟨e, z, hqueued, hz, hparse⟩ := checkHandler_names m junk name handlers hm hnames
    hparsable hmem
  have h13' : 13 ∉ (58 : UInt8) :: 32 :: (name ++ 0 :: z) := by
    simp only [List.mem_cons, List.mem_append, not_or]
    exact ⟨by decide, by decide, h13, by decide, fun h => absurd (hz 13 h) (by decide)⟩
  have hevent : cstr m ++ 0 :: z = key ++ 58 :: (32 :: (name ++ 0 :: z)) := by
    rw [ht]
    simp only [List.append_assoc, List.cons_append]
  obtain ⟨-, hslot⟩ := parse_noRecord { event := cstr m ++ 0 :: z } hkey hevent
    (by
      rintro p hp ⟨hcr, -⟩
      rw [hevent, List.getElem?_append_right (Nat.le_of_lt hp)] at hcr
      exact h13' (List.mem_of_getElem? hcr)) hparse
  refine ⟨e, hqueued, ?_⟩
  rw [AmiEvents.firstValue, AmiEvents.strSlot, List.getD_eq_getElem?_getD, hslot]
  rfl

/-- The handler that `process_events()` calls is the one that `ami_event()` has found, for
every table and message, if and only if the text of the message does not end with a name of
the table. -/
theorem dispatchers_agree_iff (process : List (List UInt8 × H)) (lines : List (List UInt8))
    (junk : List UInt8)
    (hprocess : ∀ e ∈ process, e.1.head? ≠ some 32 ∧ 13 ∉ e.1 ∧ 10 ∉ e.1)
    (hn : lines.length ≤ 100) (hlines : ∀ l ∈ lines, 13 ∉ l ∧ 10 ∉ l)
    (hm : (amiText lines).length < 4096) :
    (∀ view name events, handleMessage (amiText lines ++ 0 :: junk) (amiText lines).length
        (process.map Prod.fst) view = .ok (.queued name events) →
      ∃ func, process.find? (fun e => e.1 = name) = some (name, func) ∧
        processEvents process events = .ok [func]) ↔
      ∀ e ∈ process, ∀ key, 58 ∉ key → cstr (amiText lines) ≠ key ++ 58 :: 32 :: e.1 := by
  constructor
  · intro hagree e he key hkey ht
    obtain ⟨-, h13, h10⟩ := hprocess e he
    obtain ⟨events, hqueued, hnull⟩ := queued_null _ junk key e.1 (process.map Prod.fst) hm hkey
      ht h13 h10 (List.mem_map_of_mem he)
    obtain ⟨func, -, hcall⟩ := hagree ⟨false, false, {}, 0, 0⟩ _ _
      ((handleMessage_idle ⟨false, false, {}, 0, 0⟩ rfl).trans hqueued)
    rw [processEvents_null he hnull] at hcall
    exact absurd hcall (by simp)
  · intro hcond view name events hqueued
    obtain ⟨hname, hmem, hparse⟩ := checkHandler_queued (handleMessage_queued hqueued)
    obtain ⟨e, he, rfl⟩ := List.mem_map.mp hmem
    obtain ⟨hhead, h13, -⟩ := hprocess e he
    obtain ⟨key, hkey, hend | ⟨z, ht⟩⟩ := names_cases hlines ((eventName_iff _).mp hname)
    · exact absurd hend (hcond e he key hkey)
    · obtain ⟨tail, hcopy, htail⟩ := strncpy_job junk hm
      have hnul := not_mem_cstr (amiText lines)
      have hkey0 : ∀ b ∈ key, b ≠ 0 ∧ b ≠ 58 := by
        refine fun b hb => ⟨?_, fun h => hkey (h ▸ hb)⟩
        rintro rfl
        exact hnul (ht ▸ List.mem_append_left _ hb)
      have hname0 : ∀ b ∈ e.1, b ≠ 0 ∧ b ≠ 13 := by
        refine fun b hb => ⟨?_, fun h => h13 (h ▸ hb)⟩
        rintro rfl
        rw [ht] at hnul
        exact hnul (by simp [hb])
      rw [hcopy] at hparse
      have hfirst := firstValue_of_first (z := z ++ 0 :: tail)
        (by rw [ht]; simp only [List.append_assoc, List.cons_append]) hkey0 hname0 hhead
        List.length_replicate (fun p hp => (copy_lines hlines htail hp).trans_le hn) hparse
      rw [processEvents_ok hfirst]
      cases hfind : process.find? fun entry => entry.1 = e.1 with
      | none =>
        rw [List.find?_eq_none] at hfind
        exact absurd (by simp) (hfind e he)
      | some entry =>
        obtain ⟨first, func⟩ := entry
        have hentry := List.find?_some hfind
        obtain rfl : first = e.1 := by simpa using hentry
        exact ⟨func, rfl, rfl⟩

/-- The message `E: U`, and handlers for `U` and `V`. -/
theorem dispatchers_agree_line :
    ∃ events, handleMessage (amiText [[69, 58, 32, 85]] ++ 0 :: []) (amiText [[69, 58, 32, 85]]).length
        ([([85], 1), ([86], 2)].map Prod.fst) ⟨false, false, {}, 0, 0⟩ =
          .ok (.queued [85] events) ∧
      processEvents [([85], 1), ([86], 2)] events = .ok [1] := by
  have hnames : Names (cstr (amiText [[69, 58, 32, 85]])) [85] :=
    ⟨[69], [13, 10, 13, 10], rfl, by decide, by decide, by decide, .inr (.inl rfl)⟩
  obtain ⟨events, -, hqueued, -⟩ := checkHandler_names _ [] [85]
    ([([85], 1), ([86], 2)].map Prod.fst) (by decide) hnames (by decide) (by decide)
  have hmessage := (handleMessage_idle ⟨false, false, {}, 0, 0⟩ rfl).trans hqueued
  obtain ⟨func, hfind, hcall⟩ :=
    (dispatchers_agree_iff [([85], 1), ([86], 2)] [[69, 58, 32, 85]] [] (by decide)
      (by decide) (by decide) (by decide)).mpr (by
        intro e he key _ ht
        have hlast : some (10 : UInt8) = (key ++ 58 :: 32 :: e.1).getLast? :=
          congrArg List.getLast? ht
        obtain rfl | rfl : e = ([85], 1) ∨ e = ([86], 2) := by simpa using he
        · simp at hlast
        · simp at hlast) _ _ _ hmessage
  obtain rfl : 1 = func := congrArg Prod.snd (Option.some.inj hfind)
  exact ⟨events, hmessage, hcall⟩

/-- The text `E: U` ends with a NUL before the line end, and a handler for `U` is registered:
the job compares its name with NULL. -/
theorem dispatch_compares_null :
    ∃ view name events, handleMessage (amiText [[69, 58, 32, 85, 0]] ++ [0])
        (amiText [[69, 58, 32, 85, 0]]).length ([([85], 1)].map Prod.fst) view =
          .ok (.queued name events) ∧
      processEvents [([85], 1)] events = .error .null := by
  obtain ⟨events, hqueued, hnull⟩ := queued_null (amiText [[69, 58, 32, 85, 0]]) [] [69] [85]
    [[85]] (by decide) (by decide) rfl (by decide) (by decide) (List.mem_cons_self ..)
  exact ⟨⟨false, false, {}, 0, 0⟩, _, events, (handleMessage_idle ⟨false, false, {}, 0, 0⟩ rfl).trans hqueued,
    processEvents_null (List.mem_cons_self ..) hnull⟩

end Agree

end Tst
