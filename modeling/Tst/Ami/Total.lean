import Tst.Ami.Dispatch
import Tst.Ami.Login

/-!
# What a message can do to its reader

`amiLogin()` and `ami_event()` take any message that ends as they expect. They parse a copy of
it, and look at what the parser has stored.

## Main definitions

- `copiedString` — what `strncpy()` leaves of a text
- `AmiUse` — who takes a message
- `AmiUse.Safe` — no read is behind the copy, no index outside the table, no pointer NULL
- `AmiUse.Meets` — the messages for which that is so

## Main results

- `message_safe_iff` — a message is safe if and only if it meets the condition of its reader
-/

namespace Tst

open Bytes CString

/-- What `strncpy()` leaves of the first `n` bytes of a text: a string with its NUL, if there is
a NUL among them. -/
def copiedString (text : List UInt8) (n : Nat) : List UInt8 :=
  if 0 ∈ text.take n then cstr text ++ [0] else text.take n

/-- The string alone: what stands behind it is not part of it, and nothing has been stored in
the table. -/
def AmiEvents.ofString (s : List UInt8) : AmiEvents := { event := s }

/-- A response as its constructor and earlier parses leave it: a NUL is at the end of the block,
and pointers point into it. -/
structure ResponseBlock (events : AmiEvents) : Prop where
  event_length : events.event.length = 4096
  event_last : events.event[4095]? = some 0
  slots_length : events.slots.length = 200
  slots_le : ∀ (i q : Nat), events.slots[i]? = some (some q) → q ≤ 4095

/-- Who takes a message: the login; the log of the events, which is on where `log_event_level`
is not 0; and `ami_event()` itself, with what stands behind the message in the receive buffer,
and what it reads of `g_process` and `AMI_MANAGE`. -/
inductive AmiUse
  | login
  | log
  | event (junk : List UInt8) (handlers : List (List UInt8)) (view : ManageView)

/-- The message is handled as a response. -/
def ManageView.Takes (view : ManageView) (m : List UInt8) : Prop :=
  view.pending = true ∧ (textResponse ++ [58]).isPrefixOf m = true ∧ view.awaited = true

namespace AmiUse

/-- The messages that are accepted. -/
def Accepts (m : List UInt8) : AmiUse → Prop
  | login => 22 ≤ m.length ∧ [13, 10] <:+ m
  | log => [13, 10, 13, 10] <:+ m
  | event _ _ view => [13, 10, 13, 10] <:+ m ∧ ResponseBlock view.resp.responses

/-- The copy is not read behind its end, the table is not indexed behind its end, and no
pointer that is dereferenced is NULL or has not been stored. -/
def Safe (m : List UInt8) : AmiUse → Prop
  | login =>
    -- the block is on the stack, and the copy is as long as the message
    let copy := AmiEvents.ofString (copiedString m m.length)
    (∃ e, copy.parseChecked = .ok e) ∧ ∃ found, copy.loginResponse = .ok found
  | log =>
    let copy := AmiEvents.ofString (copiedString m m.length)
    ∃ e, copy.parseChecked = .ok e ∧
      ∀ i < e.recCount, (∃ s, e.strSlot i = .ok s) ∧ ∃ s, e.strSlot (100 + i) = .ok s
  | event junk handlers view =>
    -- the blocks are zeroed, and longer than the message
    let copy := AmiEvents.ofString (cstr m ++ [0])
    let result := handleMessage (m ++ 0 :: junk) m.length handlers view
    (∃ outcome, result = .ok outcome) ∧
      (view.Takes m → ∃ e, copy.parseChecked = .ok e) ∧
      ∀ name events, result = .ok (.queued name events) → ∃ e, copy.parseChecked = .ok e

/-- When a message is safe. -/
def Meets (m : List UInt8) : AmiUse → Prop
  | login => 0 ∈ m ∧ Parsable (cstr m)
  | log => 0 ∈ m ∧ Parsable (cstr m)
  | event _ handlers view =>
    58 ∈ cstr m ∧ (view.Takes m ∨ (∃ name ∈ handlers, Names (cstr m) name) → Parsable (cstr m)) ∧
      (view.Takes m → view.actionid = 0 →
        [13, 10] <:+: cstr m ∨ view.resp.responses.slots[100]? ≠ some none)

end AmiUse

section Copies

variable {m junk : List UInt8}

theorem copiedString_terminated (h : 0 ∈ m) : copiedString m m.length = cstr m ++ [0] := by
  rw [copiedString, List.take_length, if_pos h]

theorem copiedString_unterminated (h : 0 ∉ m) : copiedString m m.length = m := by
  rw [copiedString, List.take_length, if_neg h]

/-- The checks of a stack copy. -/
theorem stackCopy_iff (m : List UInt8) :
    (∃ e, (AmiEvents.ofString (copiedString m m.length)).parseChecked = .ok e) ↔
      0 ∈ m ∧ Parsable (cstr m) := by
  by_cases h0 : 0 ∈ m
  · rw [copiedString_terminated h0, parseChecked_iff rfl (not_mem_cstr m) List.length_replicate,
      and_iff_right h0]
  · rw [copiedString_unterminated h0]
    constructor
    · rintro ⟨e, he⟩
      exact absurd he (parseChecked_unterminated h0 e)
    · exact fun h => absurd h.1 h0

/-- The checks of a copy in a zeroed block. -/
theorem zeroedCopy_iff (m : List UInt8) :
    (∃ e, (AmiEvents.ofString (cstr m ++ [0])).parseChecked = .ok e) ↔ Parsable (cstr m) :=
  parseChecked_iff rfl (not_mem_cstr m) List.length_replicate

/-- What is parsed can be looked at. -/
theorem loginResponse_ok (events : AmiEvents) {n : Nat} {r : List UInt8}
    (h : EndsAt n r events.parseChecked) : ∃ found, events.loginResponse = .ok found := by
  obtain ⟨e, start, isHeader, x, he, hscan, hs, hx⟩ := h
  rw [AmiEvents.loginResponse, parseAmievent_of_checked he, ok_bind]
  by_cases hzero : e.recCount = 0
  · exact ⟨some false, by rw [if_pos hzero]; rfl⟩
  · obtain ⟨⟨k, hk⟩, v, hv⟩ := hscan.strings hs hx (Nat.pos_of_ne_zero hzero)
    obtain ⟨msg, hmsg⟩ := hscan.getAmivalue hs hx textMessage
    have hfirst : e.firstValue = .ok v := hv
    rw [if_neg hzero, hk, ok_bind]
    by_cases hkey : textResponse.isPrefixOf k = true
    · rw [if_pos hkey, hfirst, ok_bind]
      by_cases hvalue : textSuccess.isPrefixOf v = true
      · exact ⟨some true, by rw [if_pos hvalue]; rfl⟩
      · exact ⟨some false, by rw [if_neg hvalue, hmsg]; rfl⟩
    · exact ⟨none, by rw [if_neg hkey]; rfl⟩

end Copies

-- ════════════════════════════════════════════════════════════════════════
-- A response
-- ════════════════════════════════════════════════════════════════════════

section Response

variable {m junk w z block : List UInt8} {events : AmiEvents} {j : Nat}

theorem infix_of_pair {l : List UInt8} {a b : UInt8} (ha : l[j]? = some a)
    (hb : l[j + 1]? = some b) : [a, b] <:+: l := by
  obtain ⟨hj, rfl⟩ := List.getElem?_eq_some_iff.mp ha
  obtain ⟨hj', rfl⟩ := List.getElem?_eq_some_iff.mp hb
  refine ⟨l.take j, l.drop (j + 1 + 1), ?_⟩
  rw [List.append_assoc]
  change l.take j ++ l[j] :: l[j + 1] :: l.drop (j + 1 + 1) = l
  rw [← List.drop_eq_getElem_cons hj', ← List.drop_eq_getElem_cons hj, List.take_append_drop]

/-- A line end behind a `:` becomes that of a record. -/
theorem loopInvariant_record (hcr : block[j]? = some 13) (hlf : block[j + 1]? = some 10) :
    LoopInvariant fun events p _ isHeader => 0 < events.recCount ∨
      (∀ i, p ≤ i → events.event[i]? = block[i]?) ∧ p ≤ j ∧
        (isHeader = true → ∃ i, p ≤ i ∧ i < j ∧ block[i]? = some 58) where
  keyByte := by
    rintro events p start b (hpos | ⟨hrest, hle, hcolon⟩) hload - h58
    · exact .inl hpos
    · obtain ⟨i, hpi, hij, hi⟩ := hcolon rfl
      have hne : p ≠ i := by
        rintro rfl
        rw [← hrest p (Nat.le_refl p), load_eq_ok hload] at hi
        exact h58 (Option.some.inj hi)
      exact .inr ⟨fun k hk => hrest k (by omega), by omega, fun _ => ⟨i, by omega, hij, hi⟩⟩
  colon := by
    rintro events p start (hpos | ⟨hrest, hle, hcolon⟩) -
    · exact .inl hpos
    · obtain ⟨i, hpi, hij, hi⟩ := hcolon rfl
      refine .inr ⟨fun k hk => ?_, by omega, fun h => absurd h Bool.false_ne_true⟩
      change (events.event.set p 0)[k]? = _
      rw [List.getElem?_set_ne (by omega)]
      exact hrest k (by omega)
  valueByte := by
    rintro events p start b (hpos | ⟨hrest, hle, -⟩) hload - hend
    · exact .inl hpos
    · have hne : p ≠ j := by
        rintro rfl
        rw [← hrest p (Nat.le_refl p), load_eq_ok hload] at hcr
        rw [← hrest (p + 1) (Nat.le_succ p)] at hlf
        refine hend ⟨Option.some.inj hcr, ?_⟩
        rw [load, hlf]
      exact .inr ⟨fun k hk => hrest k (by omega), by omega,
        fun h => absurd h Bool.false_ne_true⟩
  lineEnd := by
    intro events p start _ _ _
    exact .inl (Nat.succ_pos _)

/-- A response with a line end has a record. -/
theorem parse_record (events : AmiEvents) {i : Nat} {e : AmiEvents} (hi : events.event[i]? = some 58) (hij : i < j)
    (hcr : events.event[j]? = some 13) (hlf : events.event[j + 1]? = some 10)
    (hnul : ∀ k, k ≤ j → events.event[k]? ≠ some 0) (he : events.parseAmievent = .ok e) :
    0 < e.recCount := by
  have hstart : 0 < ({ events with recCount := 0 } : AmiEvents).recCount ∨
      (∀ k, 0 ≤ k → ({ events with recCount := 0 } : AmiEvents).event[k]? = events.event[k]?) ∧
        0 ≤ j ∧ (true = true → ∃ i, 0 ≤ i ∧ i < j ∧ events.event[i]? = some 58) :=
    .inr ⟨fun _ _ => rfl, Nat.zero_le _, fun _ => ⟨i, Nat.zero_le _, hij, hi⟩⟩
  obtain ⟨q, start, isHeader, hpos | ⟨hrest, hle, -⟩, hq⟩ :=
    parseLoop_rule (loopInvariant_record hcr hlf) hstart he
  · exact hpos
  · have hzero := load_eq_ok hq
    rw [hrest q (Nat.le_refl q)] at hzero
    exact absurd hzero (hnul q hle)

/-- The constructor of a response zeroes its block. -/
theorem responseBlock_default : ResponseBlock {} where
  event_length := List.length_replicate
  event_last := by
    change (List.replicate 4096 (0 : UInt8))[4095]? = some 0
    rw [List.getElem?_replicate, if_pos (by decide)]
  slots_length := List.length_replicate
  slots_le := by
    intro i q h
    have hmem := List.mem_of_getElem? h
    exact absurd (List.eq_of_mem_replicate hmem) (by simp)

theorem ResponseBlock.setSlot (h : ResponseBlock events) {i : Nat} {start : Option Nat}
    (hstart : ∀ q, start = some q → q ≤ 4095) {event : List UInt8} {n : Nat}
    (hlen : event.length = 4096) (hlast : event[4095]? = some 0) :
    ResponseBlock { event, recCount := n, slots := events.slots.set i start } where
  event_length := hlen
  event_last := hlast
  slots_length := by rw [List.length_set]; exact h.slots_length
  slots_le := by
    intro k q hk
    by_cases hki : i = k
    · subst hki
      have hmem := List.getElem?_eq_some_iff.mp hk
      obtain ⟨hlt, hget⟩ := hmem
      rw [List.getElem_set_self] at hget
      exact hstart q hget
    · rw [List.getElem?_set_ne hki] at hk
      exact h.slots_le k q hk

/-- A parse leaves a block as it should be. -/
theorem loopInvariant_block :
    LoopInvariant fun events _ start _ =>
      ResponseBlock events ∧ ∀ q, start = some q → q ≤ 4095 where
  keyByte := by
    intro events p start b h _ _ _
    exact h
  colon := by
    rintro events p start ⟨h, hstart⟩ hload
    have hne : p ≠ 4095 := by
      rintro rfl
      exact absurd ((load_eq_ok hload).symm.trans h.event_last) (by decide)
    refine ⟨h.setSlot hstart ?_ ?_, fun q hq => absurd hq (by simp)⟩
    · rw [List.length_set]
      exact h.event_length
    · rw [List.getElem?_set_ne hne]
      exact h.event_last
  valueByte := by
    rintro events p start b ⟨h, hstart⟩ hload - -
    refine ⟨h, fun q hq => ?_⟩
    rw [noteStart] at hq
    split at hq
    · obtain rfl := Option.some.inj hq
      obtain ⟨hlt, -⟩ := List.getElem?_eq_some_iff.mp (load_eq_ok hload)
      have hlen := h.event_length
      omega
    · exact hstart q hq
  lineEnd := by
    rintro events p start ⟨h, hstart⟩ hcr hlf
    obtain ⟨hlt, -⟩ := List.getElem?_eq_some_iff.mp (load_eq_ok hlf)
    have hlen := h.event_length
    have hne : p + 1 ≠ 4095 := by
      intro heq
      rw [heq] at hlf
      exact absurd ((load_eq_ok hlf).symm.trans h.event_last) (by decide)
    refine ⟨h.setSlot ?_ ?_ ?_, fun q hq => ?_⟩
    · intro q hq
      obtain rfl := Option.some.inj hq
      cases start with
      | none =>
        change p ≤ 4095
        omega
      | some q => exact hstart q rfl
    · rw [List.length_set, List.length_set]
      exact hlen
    · rw [List.getElem?_set_ne hne, List.getElem?_set_ne (by omega)]
      exact h.event_last
    · obtain rfl := Option.some.inj hq
      omega

/-- A response that is taken leaves a block for the next one. -/
theorem ResponseBlock.takeMessage {resp resp' : AmiResponse} {s : List UInt8}
    (h : ResponseBlock resp.responses) (hresp : resp.takeMessage s = .ok resp') :
    ResponseBlock resp'.responses := by
  obtain ⟨e, he, hresp⟩ := bind_eq_ok.mp hresp
  obtain rfl := Except.ok.inj hresp
  have hstart : ResponseBlock { resp.responses with
      event := strncpy resp.responses.event s 4095, recCount := 0 } :=
    { h with
      event_length := by
        change (strncpy _ _ _).length = _
        rw [strncpy, length_splice]
        exact h.event_length
      event_last := by
        change (strncpy resp.responses.event s 4095)[4095]? = some 0
        have hlen : ((cstr s).take 4095 ++
            List.replicate (4095 - ((cstr s).take 4095).length) 0).length = 4095 := by
          simp only [List.length_append, List.length_take, List.length_replicate]
          omega
        have hfit := h.event_length
        have hdrop := drop_splice (q := 4095) (m := resp.responses.event) (p := 0)
          (by rw [hlen]; omega) (by rw [hlen])
        have hlast := h.event_last
        rw [← Nat.add_zero 4095, ← List.getElem?_drop] at hlast ⊢
        rw [strncpy, hdrop]
        exact hlast }
  obtain ⟨q, start, isHeader, ⟨hblock, -⟩, -⟩ := parseLoop_rule loopInvariant_block
    ⟨hstart, fun q hq => by
      obtain rfl := Option.some.inj hq
      exact Nat.zero_le _⟩ he
  exact hblock

/-- The text of a response. -/
theorem response_text (h : (textResponse ++ [58]).isPrefixOf m = true) :
    ∃ w, cstr m = textResponse ++ 58 :: w := by
  obtain ⟨w, rfl⟩ := List.isPrefixOf_iff_prefix.mp h
  have hclean : ∀ b ∈ textResponse ++ [58], decide (b ≠ 0) = true :=
    List.all_eq_true.mp (by decide)
  exact ⟨cstr w, by rw [cstr, List.takeWhile_append_of_pos hclean, List.append_assoc]; rfl⟩

/-- The copy of a response in a block that ends with a NUL. -/
theorem strncpy_block (hblock : ResponseBlock events) (hm : m.length < 4096) :
    strncpy events.event (m ++ 0 :: junk) 4095 =
      cstr m ++ 0 :: List.replicate (4095 - (cstr m).length) 0 := by
  have hle := (cstr_sublist m).length_le
  rw [strncpy_eq (by rw [cstr_append_zero]; omega) hblock.event_last, cstr_append_zero,
    List.drop_eq_nil_of_le hblock.event_length.le, List.append_nil]

/-- A response is taken if its text can be parsed, and every key can be looked up in it. -/
theorem takeMessage_ok (junk : List UInt8) {resp : AmiResponse} (hblock : ResponseBlock resp.responses)
    (hm : m.length < 4096) (ht : Parsable (cstr m)) :
    ∃ e, resp.takeMessage (m ++ 0 :: junk) = .ok { resp with responses := e } ∧
      (∀ key, ∃ s, e.getAmivalue key = .ok s) ∧ (0 < e.recCount → ∃ s, e.firstValue = .ok s) ∧
      ∀ q ≤ 4095, e.slots[100]? = some (some q) → ∃ s, e.firstValue = .ok s := by
  have hle := (cstr_sublist m).length_le
  obtain ⟨e, start, isHeader, x, he, hscan, hs, hx⟩ := parseChecked_ok
    { resp.responses with
      event := cstr m ++ 0 :: List.replicate (4095 - (cstr m).length) 0 }
    rfl (not_mem_cstr m) ht hblock.slots_length
  refine ⟨e, ?_, hscan.getAmivalue hs hx, fun hpos => (hscan.strings hs hx hpos).2, ?_⟩
  · rw [AmiResponse.takeMessage, strncpy_block hblock hm, parseAmievent_of_checked he]
    rfl
  · intro q hq hslot
    have hlast : e.event = x ++ List.replicate (4095 - (cstr m).length) 0 ++ 0 :: [] := by
      rw [hs, List.append_assoc, ← List.replicate_succ', List.replicate_succ]
    rw [AmiEvents.firstValue, strSlot_eq hslot]
    apply str_before hlast
    rw [List.length_append, List.length_replicate, hx]
    omega

/-- The first value of a response: that of its first record, or what has been there. -/
theorem takeMessage_firstValue {resp resp' : AmiResponse} (hblock : ResponseBlock resp.responses)
    (hm : m.length < 4096) (hresponse : (textResponse ++ [58]).isPrefixOf m = true)
    (hresp : resp.takeMessage (m ++ 0 :: junk) = .ok resp') :
    ([13, 10] <:+: cstr m → 0 < resp'.responses.recCount) ∧
      (¬ [13, 10] <:+: cstr m → resp'.responses.recCount = 0 ∧
        resp'.responses.slots[100]? = resp.responses.slots[100]?) := by
  obtain ⟨w, hw⟩ := response_text hresponse
  have hnul := not_mem_cstr m
  obtain ⟨e, he, hresp⟩ := bind_eq_ok.mp hresp
  obtain rfl := Except.ok.inj hresp
  rw [strncpy_block hblock hm] at he
  have hat : ∀ i, i < (cstr m).length →
      (cstr m ++ 0 :: List.replicate (4095 - (cstr m).length) 0)[i]? = (cstr m)[i]? :=
    fun i hi => List.getElem?_append_left hi
  constructor
  · rintro ⟨x, y, hxy⟩
    have hxy' : cstr m = x ++ 13 :: 10 :: y := by
      rw [← hxy, List.append_assoc]
      rfl
    have hlen : x.length + 1 < (cstr m).length := by
      rw [hxy', List.length_append, List.length_cons, List.length_cons]
      omega
    have hcr : (cstr m)[x.length]? = some 13 := by rw [hxy', getElem?_middle]
    have hlf : (cstr m)[x.length + 1]? = some 10 := by
      rw [hxy', List.append_cons]
      have hmiddle := getElem?_middle (x ++ [13]) y 10
      rwa [List.length_append] at hmiddle
    have hcolon : (cstr m)[8]? = some 58 := by
      rw [hw]
      exact getElem?_middle textResponse w 58
    have hbehind : 8 < x.length := by
      by_contra hnot
      have hclean : 13 ∉ textResponse ++ [58] := by decide
      apply hclean
      have hin : (textResponse ++ [58])[x.length]? = some 13 := by
        have hlt : x.length < (textResponse ++ [58]).length := by
          change x.length < 9
          omega
        have hw' : cstr m = textResponse ++ [58] ++ w := hw.trans (List.append_cons ..)
        rw [← hcr, hw', List.getElem?_append_left hlt]
      exact List.mem_of_getElem? hin
    apply parse_record { resp.responses with
      event := cstr m ++ 0 :: List.replicate (4095 - (cstr m).length) 0 } (i := 8)
      (j := x.length) _ hbehind _ _ _ he
    · exact (hat 8 (by omega)).trans hcolon
    · exact (hat _ (by omega)).trans hcr
    · exact (hat _ (by omega)).trans hlf
    · intro k hk hzero
      exact hnul (List.mem_of_getElem? ((hat k (by omega)).symm.trans hzero))
  · intro hno
    have hkey : 58 ∉ textResponse := by decide
    have hs : cstr m ++ 0 :: List.replicate (4095 - (cstr m).length) 0 =
        textResponse ++ 58 :: (w ++ 0 :: List.replicate (4095 - (cstr m).length) 0) := by
      conv_lhs => rw [hw]
      rw [List.append_assoc, List.cons_append, hw]
    refine parse_noRecord { resp.responses with
      event := cstr m ++ 0 :: List.replicate (4095 - (cstr m).length) 0 } hkey hs ?_ he
    rintro p - ⟨hcr, hlf⟩
    change (cstr m ++ 0 :: List.replicate (4095 - (cstr m).length) 0)[p]? = some 13 at hcr
    change (cstr m ++ 0 :: List.replicate (4095 - (cstr m).length) 0)[p + 1]? = some 10 at hlf
    have hzeros : ∀ (b : UInt8) (i : Nat), b ≠ 0 →
        (cstr m ++ 0 :: List.replicate (4095 - (cstr m).length) 0)[i]? = some b →
        i < (cstr m).length := by
      intro b i hb hi
      by_contra hnot
      rw [List.getElem?_append_right (Nat.not_lt.mp hnot), ← List.replicate_succ] at hi
      exact hb (List.eq_of_mem_replicate (List.mem_of_getElem? hi))
    have hp := hzeros 10 (p + 1) (by decide) hlf
    rw [hat p (by omega)] at hcr
    rw [hat _ hp] at hlf
    exact hno (infix_of_pair hcr hlf)

end Response

-- ════════════════════════════════════════════════════════════════════════
-- A message of the connection
-- ════════════════════════════════════════════════════════════════════════

section Event

variable {m junk : List UInt8} {handlers : List (List UInt8)} {view : ManageView}

/-- The text of a message decides whether it is a response. -/
theorem isPrefixOf_response (m junk : List UInt8) :
    (textResponse ++ [58]).isPrefixOf (m ++ 0 :: junk) = (textResponse ++ [58]).isPrefixOf m := by
  have hclean : 0 ∉ textResponse ++ [58] := by decide
  apply Bool.eq_iff_iff.mpr
  rw [List.isPrefixOf_iff_prefix, List.isPrefixOf_iff_prefix]
  constructor
  · intro h
    by_cases hlen : (textResponse ++ [58]).length ≤ m.length
    · exact List.prefix_of_prefix_length_le h (List.prefix_append m _) hlen
    · have hnul : m ++ [0] <+: textResponse ++ [58] := by
        apply List.prefix_of_prefix_length_le _ h
        · rw [List.length_append, List.length_singleton]
          omega
        · exact ⟨junk, (List.append_cons m 0 junk).symm⟩
      exact absurd (hnul.subset (List.mem_append_right _ (List.mem_singleton_self 0))) hclean
  · exact fun h => h.trans (List.prefix_append m _)

theorem handleMessage_takes (h : view.Takes m) :
    handleMessage (m ++ 0 :: junk) m.length handlers view = (do
      let resp ← view.resp.takeMessage (m ++ 0 :: junk)
      let currId ← resp.responses.actionId
      if currId < view.actionid then checkHandler (m ++ 0 :: junk) m.length handlers
      else if currId > view.actionid' then return .response resp.refuse
      else return .response (← resp.accept)) := by
  have hview : view.pending = true ∧ (textResponse ++ [58]).isPrefixOf m = true ∧
      view.awaited = true := h
  rw [handleMessage, isPrefixOf_response, if_pos hview]

theorem handleMessage_passes (h : ¬ view.Takes m) :
    handleMessage (m ++ 0 :: junk) m.length handlers view =
      checkHandler (m ++ 0 :: junk) m.length handlers := by
  have hview : ¬ (view.pending = true ∧ (textResponse ++ [58]).isPrefixOf m = true ∧
      view.awaited = true) := h
  rw [handleMessage, isPrefixOf_response, if_neg hview]

/-- A message with a `:`, which can be parsed if it is. -/
theorem checkHandler_ok (hm : m.length < 4096) (hcolon : 58 ∈ cstr m)
    (ht : (∃ name ∈ handlers, Names (cstr m) name) → Parsable (cstr m)) :
    ∃ outcome, checkHandler (m ++ 0 :: junk) m.length handlers = .ok outcome := by
  obtain ⟨found, hfound⟩ := eventName_ok junk hcolon
  cases found with
  | none =>
    rw [checkHandler, hfound, ok_bind]
    exact ⟨_, rfl⟩
  | some name =>
    by_cases hmem : handlers.contains name = true
    · have hnames : Names (cstr m) name := (eventName_iff name).mp hfound
      have hname : name ∈ handlers := by simpa using hmem
      obtain ⟨e, -, he, -⟩ := checkHandler_names m junk name handlers hm hnames
        (ht ⟨name, hname, hnames⟩) hname
      exact ⟨_, he⟩
    · refine ⟨.dropped, ?_⟩
      rw [checkHandler, hfound, ok_bind]
      change (if handlers.contains name then _ else _) = _
      rw [if_neg hmem]
      rfl

/-- The handler of a message that is named is found. -/
theorem checkHandler_named {outcome : AmiOutcome}
    (h : checkHandler (m ++ 0 :: junk) m.length handlers = .ok outcome) :
    58 ∈ cstr m ∧ ((∃ name ∈ handlers, Names (cstr m) name) →
      ∃ name events, outcome = .queued name events) := by
  constructor
  · by_contra h58
    rw [checkHandler, eventName_null h58, error_bind] at h
    cases h
  · rintro ⟨name, hmem, hnames⟩
    have hcontains : handlers.contains name = true := by simpa using hmem
    rw [checkHandler, (eventName_iff name).mpr hnames, ok_bind] at h
    change (if handlers.contains name then _ else _) = _ at h
    rw [if_pos hcontains] at h
    obtain ⟨e, -, h⟩ := bind_eq_ok.mp h
    exact ⟨name, e, (Except.ok.inj h).symm⟩

theorem accept_ok (resp : AmiResponse) {v : List UInt8}
    (h : resp.responses.firstValue = .ok v) : ∃ resp', resp.accept = .ok resp' :=
  ⟨_, by rw [AmiResponse.accept, h]; rfl⟩

/-- Without a record the number of the action is 0. -/
theorem actionId_zero {e : AmiEvents} (h : e.recCount = 0) : e.actionId = .ok 0 := by
  rw [AmiEvents.actionId, AmiEvents.getAmivalue, h]
  rfl

/-- A message of the connection is safe if and only if it meets the condition. -/
theorem event_safe_iff (hm : m.length < 4096) (hblock : ResponseBlock view.resp.responses) :
    AmiUse.Safe m (.event junk handlers view) ↔ AmiUse.Meets m (.event junk handlers view) := by
  change ((∃ outcome, handleMessage (m ++ 0 :: junk) m.length handlers view = .ok outcome) ∧
    (view.Takes m → ∃ e, (AmiEvents.ofString (cstr m ++ [0])).parseChecked = .ok e) ∧
    ∀ name events, handleMessage (m ++ 0 :: junk) m.length handlers view =
      .ok (.queued name events) →
        ∃ e, (AmiEvents.ofString (cstr m ++ [0])).parseChecked = .ok e) ↔
    58 ∈ cstr m ∧ (view.Takes m ∨ (∃ name ∈ handlers, Names (cstr m) name) → Parsable (cstr m)) ∧
      (view.Takes m → view.actionid = 0 →
        [13, 10] <:+: cstr m ∨ view.resp.responses.slots[100]? ≠ some none)
  rw [zeroedCopy_iff]
  by_cases htakes : view.Takes m
  · obtain ⟨w, hw⟩ := response_text htakes.2.1
    have hcolon : 58 ∈ cstr m := by
      rw [hw]
      exact List.mem_append_right _ (List.mem_cons_self ..)
    constructor
    · rintro ⟨⟨outcome, hresult⟩, hparse, -⟩
      refine ⟨hcolon, fun _ => hparse htakes, fun _ hzero => ?_⟩
      by_contra hnot
      obtain ⟨hline, hslot⟩ := not_or.mp hnot
      rw [not_not] at hslot
      rw [handleMessage_takes htakes] at hresult
      obtain ⟨resp, hresp, hresult⟩ := bind_eq_ok.mp hresult
      obtain ⟨-, hno⟩ := takeMessage_firstValue hblock hm htakes.2.1 hresp
      obtain ⟨hcount, hfirst⟩ := hno hline
      have hnot : ¬ (0 : UInt32) > view.actionid' := by
        rw [gt_iff_lt, UInt32.lt_iff_toNat_lt]
        exact Nat.not_lt_zero _
      rw [actionId_zero hcount, ok_bind, hzero, if_neg (by decide), if_neg hnot] at hresult
      obtain ⟨resp', hresp', -⟩ := bind_eq_ok.mp hresult
      obtain ⟨v, hv, -⟩ := bind_eq_ok.mp hresp'
      rw [AmiEvents.firstValue, AmiEvents.strSlot, List.getD_eq_getElem?_getD, hfirst,
        hslot] at hv
      cases hv
    · rintro ⟨-, hparse, hfirst⟩
      have ht := hparse (.inl htakes)
      refine ⟨?_, fun _ => ht, fun _ _ _ => ht⟩
      obtain ⟨e, hresp, hkeys, hrecords, hold⟩ := takeMessage_ok junk hblock hm ht
      obtain ⟨hrecord, hno⟩ := takeMessage_firstValue hblock hm htakes.2.1 hresp
      obtain ⟨text, htext⟩ := hkeys textActionID
      have hid : e.actionId = .ok (UInt32.ofInt (atoi text)) := by
        rw [AmiEvents.actionId, htext]
        rfl
      rw [handleMessage_takes htakes, hresp, ok_bind, hid, ok_bind]
      by_cases hlt : UInt32.ofInt (atoi text) < view.actionid
      · rw [if_pos hlt]
        exact checkHandler_ok hm hcolon fun _ => ht
      · rw [if_neg hlt]
        by_cases hgt : UInt32.ofInt (atoi text) > view.actionid'
        · rw [if_pos hgt]
          exact ⟨_, rfl⟩
        · obtain ⟨v, hv⟩ : ∃ v, e.firstValue = .ok v := by
            by_cases hline : [13, 10] <:+: cstr m
            · exact hrecords (hrecord hline)
            · obtain ⟨hcount, hslot⟩ := hno hline
              rw [actionId_zero hcount, Except.ok.injEq] at hid
              have hzero : view.actionid = 0 := by
                rw [← hid, UInt32.lt_iff_toNat_lt] at hlt
                exact UInt32.toNat_inj.mp (Nat.eq_zero_of_not_pos hlt)
              obtain hline' | hslot' := hfirst htakes hzero
              · exact absurd hline' hline
              · have hlen : 100 < view.resp.responses.slots.length := by
                  rw [hblock.slots_length]
                  decide
                cases hq : view.resp.responses.slots[100] with
                | none =>
                  rw [List.getElem?_eq_getElem hlen, hq] at hslot'
                  exact absurd rfl hslot'
                | some q =>
                  have hget : view.resp.responses.slots[100]? = some (some q) := by
                    rw [List.getElem?_eq_getElem hlen, hq]
                  exact hold q (hblock.slots_le 100 q hget) (hslot.trans hget)
          obtain ⟨resp, haccept⟩ := accept_ok
            { view.resp with responses := e } hv
          exact ⟨.response resp, by rw [if_neg hgt, haccept]; rfl⟩
  · rw [handleMessage_passes htakes]
    constructor
    · rintro ⟨⟨outcome, hresult⟩, -, hqueued⟩
      obtain ⟨hcolon, hnamed⟩ := checkHandler_named hresult
      refine ⟨hcolon, ?_, fun h => absurd h htakes⟩
      rintro (h | hnames)
      · exact absurd h htakes
      · obtain ⟨name, events, rfl⟩ := hnamed hnames
        exact hqueued name events hresult
    · rintro ⟨hcolon, hparse, -⟩
      refine ⟨checkHandler_ok hm hcolon fun h => hparse (.inr h), fun h => absurd h htakes, ?_⟩
      intro name events hqueued
      obtain ⟨hname, hmem, -⟩ := checkHandler_queued hqueued
      exact hparse (.inr ⟨name, hmem, (eventName_iff name).mp hname⟩)

end Event

-- ════════════════════════════════════════════════════════════════════════
-- Every reader
-- ════════════════════════════════════════════════════════════════════════

section Readers

variable {m : List UInt8}

theorem login_safe_iff (m : List UInt8) :
    AmiUse.Safe m .login ↔ 0 ∈ m ∧ Parsable (cstr m) := by
  constructor
  · rintro ⟨hcopy, -⟩
    exact (stackCopy_iff m).mp hcopy
  · rintro ⟨h0, ht⟩
    refine ⟨(stackCopy_iff m).mpr ⟨h0, ht⟩, loginResponse_ok _ (n := (cstr m).length) (r := []) ?_⟩
    exact parseChecked_ok _ (copiedString_terminated h0) (not_mem_cstr m) ht List.length_replicate

theorem log_safe_iff (m : List UInt8) : AmiUse.Safe m .log ↔ 0 ∈ m ∧ Parsable (cstr m) := by
  constructor
  · rintro ⟨e, he, -⟩
    exact (stackCopy_iff m).mp ⟨e, he⟩
  · rintro ⟨h0, ht⟩
    obtain ⟨e, start, isHeader, x, he, hscan, hs, hx⟩ := parseChecked_ok
      (r := []) (AmiEvents.ofString (copiedString m m.length))
      (copiedString_terminated h0) (not_mem_cstr m) ht List.length_replicate
    exact ⟨e, he, fun i hi => hscan.strings hs hx hi⟩

/-- A message is safe for its reader if and only if it meets the condition of this reader: the
copy on the stack has a NUL only where the message has one, the table has room for 100 records,
and `ami_event()` needs a `:`. -/
theorem message_safe_iff (use : AmiUse) (m : List UInt8) (hm : m.length < 4096)
    (haccepts : use.Accepts m) : use.Safe m ↔ use.Meets m := by
  cases use with
  | login => exact login_safe_iff m
  | log => exact log_safe_iff m
  | event junk handlers view => exact event_safe_iff hm haccepts.2

/-- The message `E: U`, for a table with a handler for `U`. -/
theorem message_safe_event : AmiUse.Safe [69, 58, 32, 85, 13, 10, 13, 10]
    (.event [] [[85]] ⟨false, false, {}, 0, 0⟩) := by
  refine (message_safe_iff (.event [] [[85]] ⟨false, false, {}, 0, 0⟩) _ (by decide)
    ⟨⟨[69, 58, 32, 85], rfl⟩, responseBlock_default⟩).mpr ⟨by decide, fun _ => by decide,
      fun h => ?_⟩
  exact absurd h.1 Bool.false_ne_true

/-- `Response: Success` and `A: b`: the login takes the message, but its copy has no NUL. -/
theorem login_copy_unterminated :
    let m := textResponse ++ [58, 32] ++ textSuccess ++ [13, 10, 65, 58, 32, 98, 13, 10, 13, 10]
    AmiUse.Accepts m .login ∧ m.length < 4096 ∧ ¬ AmiUse.Safe m .login := by
  refine ⟨⟨by decide, by decide⟩, by decide, fun h => ?_⟩
  exact absurd ((login_safe_iff _).mp h).1 (by decide)

end Readers

end Tst
