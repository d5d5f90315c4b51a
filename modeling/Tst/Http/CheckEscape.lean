import Tst.Http.QueryString
import Tst.Http.Response
import Tst.Lib.Pointer

/-!
# Blanks and line breaks in a name or a value

`CheckEscape` goes through a string with a pointer that falls back by one at each blank, before
the string if the blank is the first byte, and moves all that follows by one byte. At a line break
it stores a NUL and goes on behind it.

## Main definitions

- `CQueryString.checkEscapeAt` — the function, byte by byte
- `cutFilter` — the text up to its first line break, without its blanks

## Main results

- `checkEscapeAt_zero` — it is `checkEscape`, with which `parse` works
- `checkEscape_cutFilter` — the string is cut and filtered, and no byte outside of it is touched
-/

namespace Tst

open CString

namespace CQueryString

/-- `for (char* p = pChk; *p; p++) *p = *(p + 1);`, byte by byte. -/
def moveLoop : Nat → List UInt8 → Int → Except Fault (List UInt8)
  | 0, _, _ => .error .endless
  | fuel + 1, s, p => do
    if (← loadPtr s p) = 0 then return s
    moveLoop fuel (← storePtr s p (← loadPtr s (p + 1))) (p + 1)

/-- The byte is a blank that is deleted. -/
def IsBlank (m c : UInt8) : Prop := (c = 32 ∧ m &&& esWs ≠ 0) ∨ (c = 9 ∧ m &&& esTab ≠ 0)

/-- The byte is a line break that ends the string. -/
def IsBreak (m c : UInt8) : Prop := (c = 13 ∧ m &&& esCr ≠ 0) ∨ (c = 10 ∧ m &&& esLf ≠ 0)

instance (m c : UInt8) : Decidable (IsBlank m c) := inferInstanceAs (Decidable (_ ∨ _))

instance (m c : UInt8) : Decidable (IsBreak m c) := inferInstanceAs (Decidable (_ ∨ _))

/-- The loop of `CheckEscape`. A deleted blank takes `pChk` back by one. -/
def escapeLoop (m : UInt8) : Nat → List UInt8 → Int → Except Fault (List UInt8)
  | 0, _, _ => .error .endless
  | fuel + 1, s, pChk => do
    let c ← loadPtr s pChk
    if c = 0 then return s
    else if IsBlank m c then
      let s ← moveLoop (s.length + 1) s pChk
      let pChk := pChk - 1
      escapeLoop m fuel s (pChk + 1)
    else if IsBreak m c then escapeLoop m fuel (← storePtr s pChk 0) (pChk + 1)
    else escapeLoop m fuel s (pChk + 1)

/-- `CheckEscape`, on the string that begins at `s[i]`. -/
def checkEscapeAt (m : UInt8) (s : List UInt8) (i : Nat) : Except Fault (List UInt8) :=
  escapeLoop m (2 * s.length + 1) s i

end CQueryString

open CQueryString

/-- The text before the first line break, without its blanks. -/
def cutFilter (m : UInt8) (x : List UInt8) : List UInt8 :=
  (x.takeWhile fun c => ¬ IsBreak m c).filter fun c => ¬ IsBlank m c

-- ════════════════════════════════════════════════════════════════════════
-- Moving the rest of a string
-- ════════════════════════════════════════════════════════════════════════

section Move

variable {m b : UInt8} {s a r x : List UInt8} {fuel : Nat} {p : Int}

/-- One byte is moved. -/
theorem moveLoop_step {c : UInt8} (hs : s = a ++ b :: c :: r) (hp : p = a.length) (hb : b ≠ 0) :
    moveLoop (fuel + 1) s p = moveLoop fuel (a ++ c :: c :: r) (p + 1) := by
  have hs' : s = (a ++ [b]) ++ c :: r := by rw [hs, List.append_assoc]; rfl
  have hp' : p + 1 = (a ++ [b]).length := by rw [hp, List.length_append]; rfl
  rw [moveLoop, loadPtr_at hs hp, ok_bind, if_neg hb, loadPtr_at hs' hp', ok_bind,
    storePtr_at hs hp, ok_bind]

/-- The string loses its first byte, and the NUL behind it is there twice. -/
theorem moveLoop_text (hs : s = a ++ b :: (x ++ 0 :: r)) (hp : p = a.length) (hb : b ≠ 0)
    (hx : 0 ∉ x) (hfuel : x.length + 1 < fuel) :
    moveLoop fuel s p = .ok (a ++ (x ++ 0 :: 0 :: r)) := by
  induction x generalizing a b s p fuel with
  | nil =>
    obtain ⟨fuel, rfl⟩ : ∃ n, fuel = n + 2 := ⟨fuel - 2, by simp at hfuel; omega⟩
    have hp' : p + 1 = (a ++ [0]).length := by rw [hp, List.length_append]; rfl
    have hs' : a ++ 0 :: 0 :: r = (a ++ [0]) ++ 0 :: r := by rw [List.append_assoc]; rfl
    rw [moveLoop_step hs hp hb, moveLoop, loadPtr_at hs' hp', ok_bind, if_pos rfl]
    rfl
  | cons c x ih =>
    obtain ⟨fuel, rfl⟩ := Nat.exists_eq_succ_of_ne_zero (Nat.ne_zero_of_lt hfuel)
    rw [List.length_cons] at hfuel
    rw [List.cons_append] at hs
    have hc : c ≠ 0 := fun h => hx (h ▸ List.mem_cons_self ..)
    have hp' : p + 1 = (a ++ [c]).length := by rw [hp, List.length_append]; rfl
    have hs' : a ++ c :: c :: (x ++ 0 :: r) = (a ++ [c]) ++ c :: (x ++ 0 :: r) := by
      rw [List.append_assoc]
      rfl
    rw [moveLoop_step hs hp hb, ih hs' hp' hc (fun h => hx (List.mem_cons_of_mem _ h)) (by omega),
      List.append_assoc]
    rfl

/-- Without a NUL the loop leaves the buffer. -/
theorem moveLoop_fault (hs : s = a ++ b :: x) (hp : p = a.length) (hb : b ≠ 0) (hx : 0 ∉ x)
    (hfuel : x.length < fuel) : moveLoop fuel s p = .error .bounds := by
  induction x generalizing a b s p fuel with
  | nil =>
    obtain ⟨fuel, rfl⟩ := Nat.exists_eq_succ_of_ne_zero (Nat.ne_zero_of_lt hfuel)
    have hp' : p + 1 = s.length := by rw [hp, hs, List.length_append]; rfl
    rw [moveLoop, loadPtr_at hs hp, ok_bind, if_neg hb, loadPtr_end hp']
    rfl
  | cons c x ih =>
    obtain ⟨fuel, rfl⟩ := Nat.exists_eq_succ_of_ne_zero (Nat.ne_zero_of_lt hfuel)
    rw [List.length_cons] at hfuel
    have hc : c ≠ 0 := fun h => hx (h ▸ List.mem_cons_self ..)
    have hp' : p + 1 = (a ++ [c]).length := by rw [hp, List.length_append]; rfl
    have hs' : a ++ c :: c :: x = (a ++ [c]) ++ c :: x := by rw [List.append_assoc]; rfl
    rw [moveLoop_step hs hp hb]
    exact ih hs' hp' hc (fun h => hx (List.mem_cons_of_mem _ h)) (by omega)

/-- What `moveLeft` makes of a string. -/
theorem moveLeft_text (hs : s = a ++ b :: (x ++ 0 :: r)) (hb : b ≠ 0) (hx : 0 ∉ x) :
    moveLeft s a.length = .ok (a ++ (x ++ 0 :: 0 :: r)) := by
  have hbx : 0 ∉ b :: x := by simp [hx, Ne.symm hb]
  have hfind : find s (· = 0) a.length = .ok (a.length + (b :: x).length) :=
    find_nul (by rw [hs]; rfl) rfl hbx
  have htail : s = (a ++ [b]) ++ (x ++ 0 :: r) := by rw [hs, List.append_assoc]; rfl
  have hwindow : Bytes.window s (a.length + 1) (b :: x).length = x ++ [0] := by
    have hdrop : s.drop (a.length + 1) = x ++ 0 :: r := by
      rw [htail]
      exact List.drop_left' List.length_append
    have hsplit : x ++ 0 :: r = (x ++ [0]) ++ r := by rw [List.append_assoc]; rfl
    rw [Bytes.window, hdrop, hsplit]
    exact List.take_left' List.length_append
  have hrest : s.drop (a.length + (b :: x).length) = 0 :: r := by
    have hsplit : s = (a ++ b :: x) ++ 0 :: r := by rw [hs, List.append_assoc]; rfl
    rw [hsplit, ← List.length_append]
    exact List.drop_left
  rw [moveLeft, hfind, ok_bind, Nat.add_sub_cancel_left, hwindow, hrest, hs, List.take_left]
  simp [pure, Except.pure]

/-- The rest is moved as by `moveLeft`. -/
theorem moveLoop_eq (hs : s = a ++ b :: x) (hb : b ≠ 0) :
    moveLoop (s.length + 1) s a.length = moveLeft s a.length := by
  have hlen : s.length = a.length + (x.length + 1) := by rw [hs, List.length_append]; rfl
  by_cases hx : 0 ∈ x
  · obtain ⟨y, z, rfl, hy⟩ := List.eq_append_cons_of_mem hx
    rw [List.length_append, List.length_cons] at hlen
    rw [moveLoop_text hs rfl hb hy (by omega), moveLeft_text hs hb hy]
  · have hbx : ∀ c ∈ b :: x, (decide (c = 0)) = false := by
      intro c hc
      refine decide_eq_false fun h0 => ?_
      obtain rfl | hc := List.mem_cons.mp hc
      · exact hb h0
      · exact hx (h0 ▸ hc)
    rw [moveLoop_fault hs rfl hb hx (by omega), moveLeft, find_none hs rfl hbx]
    rfl

end Move

-- ════════════════════════════════════════════════════════════════════════
-- The loop
-- ════════════════════════════════════════════════════════════════════════

section Loop

variable {m b : UInt8} {s a r x : List UInt8} {fuel : Nat}

/-- Behind a blank the pointer is where it was, and the loop is that of `checkEscape`. -/
theorem escapeLoop_eq (m : UInt8) (fuel : Nat) (s : List UInt8) (i : Nat) :
    escapeLoop m fuel s i = checkLoop m fuel s i := by
  induction fuel generalizing s i with
  | zero => rfl
  | succ fuel ih =>
    rw [escapeLoop, checkLoop, loadPtr_natCast]
    cases hload : load s i with
    | error fault => rfl
    | ok c =>
      obtain ⟨hlt, hget⟩ := List.getElem?_eq_some_iff.mp (load_eq_ok hload)
      have hs : s = s.take i ++ c :: s.drop (i + 1) := by
        conv_lhs => rw [← List.take_append_drop i s, List.drop_eq_getElem_cons hlt, hget]
      have hi : (s.take i).length = i := by rw [List.length_take]; omega
      rw [ok_bind, ok_bind]
      by_cases h0 : c = 0
      · rw [if_pos h0, if_pos h0]
      · rw [if_neg h0, if_neg h0]
        by_cases hblank : IsBlank m c
        · have hmove : moveLoop (s.length + 1) s i = moveLeft s i := by
            have heq := moveLoop_eq hs h0
            rwa [hi] at heq
          rw [if_pos hblank, if_pos (show _ ∨ _ from hblank), hmove]
          cases moveLeft s i with
          | error fault => rfl
          | ok s' =>
            dsimp only
            rw [ok_bind, ok_bind, Int.sub_add_cancel]
            exact ih s' i
        · rw [if_neg hblank, if_neg (show ¬ (_ ∨ _) from hblank)]
          by_cases hbreak : IsBreak m c
          · rw [if_pos hbreak, if_pos (show _ ∨ _ from hbreak), storePtr_natCast]
            cases store s i 0 with
            | error fault => rfl
            | ok s' => exact ih s' (i + 1)
          · rw [if_neg hbreak, if_neg (show ¬ (_ ∨ _) from hbreak)]
            exact ih s (i + 1)

/-- On an array that begins with the string, the function is `checkEscape`. -/
theorem checkEscapeAt_zero (m : UInt8) (s : List UInt8) : checkEscapeAt m s 0 = checkEscape m s :=
  escapeLoop_eq m _ s 0

theorem IsBlank.not_break (h : IsBlank m b) : ¬ IsBreak m b := by
  rintro (⟨rfl, -⟩ | ⟨rfl, -⟩)
  · simp [IsBlank] at h
  · simp [IsBlank] at h

theorem cutFilter_break (h : IsBreak m b) (x : List UInt8) : cutFilter m (b :: x) = [] := by
  simp [cutFilter, h]

theorem cutFilter_blank (h : IsBlank m b) (x : List UInt8) :
    cutFilter m (b :: x) = cutFilter m x := by
  have hbreak := IsBlank.not_break h
  simp [cutFilter, h, hbreak]

theorem cutFilter_keep (hblank : ¬ IsBlank m b) (hbreak : ¬ IsBreak m b) (x : List UInt8) :
    cutFilter m (b :: x) = b :: cutFilter m x := by
  simp [cutFilter, hblank, hbreak]

theorem checkLoop_nul (hs : s = a ++ 0 :: r) : checkLoop m (fuel + 1) s a.length = .ok s := by
  rw [checkLoop, load_at hs rfl, ok_bind, if_pos rfl]
  rfl

/-- A blank is deleted, and the old NUL is left behind the new one. -/
theorem checkLoop_blank (hs : s = a ++ b :: (x ++ 0 :: r)) (hb : b ≠ 0) (hx : 0 ∉ x)
    (hblank : IsBlank m b) : checkLoop m (fuel + 1) s a.length =
      checkLoop m fuel (a ++ (x ++ 0 :: 0 :: r)) a.length := by
  rw [checkLoop, load_at hs rfl, ok_bind, if_neg hb, if_pos (show _ ∨ _ from hblank),
    moveLeft_text hs hb hx, ok_bind]

/-- A line break becomes a NUL, and the loop goes on behind it. -/
theorem checkLoop_break (hs : s = a ++ b :: r) (hb : b ≠ 0) (hbreak : IsBreak m b) :
    checkLoop m (fuel + 1) s a.length =
      checkLoop m fuel ((a ++ [0]) ++ r) (a ++ [0]).length := by
  have hblank : ¬ IsBlank m b := fun h => IsBlank.not_break h hbreak
  rw [checkLoop, load_at hs rfl, ok_bind, if_neg hb, if_neg (show ¬ (_ ∨ _) from hblank),
    if_pos (show _ ∨ _ from hbreak), store_at hs rfl, ok_bind, List.append_assoc,
    List.length_append]
  rfl

theorem checkLoop_keep (hs : s = a ++ b :: r) (hb : b ≠ 0) (hblank : ¬ IsBlank m b)
    (hbreak : ¬ IsBreak m b) : checkLoop m (fuel + 1) s a.length =
      checkLoop m fuel ((a ++ [b]) ++ r) (a ++ [b]).length := by
  rw [checkLoop, load_at hs rfl, ok_bind, if_neg hb, if_neg (show ¬ (_ ∨ _) from hblank),
    if_neg (show ¬ (_ ∨ _) from hbreak), hs, List.append_assoc, List.length_append]
  rfl

/-- What the loop makes of the string that is still before it, whatever is around it. -/
theorem checkLoop_text (m : UInt8) (hx : 0 ∉ x) :
    ∃ y, y.length = x.length + 1 ∧ 0 ∈ y ∧ cstr y = cutFilter m x ∧
      ∀ a r fuel, x.length < fuel →
        checkLoop m fuel (a ++ (x ++ 0 :: r)) a.length = .ok (a ++ (y ++ r)) := by
  induction x with
  | nil =>
    refine ⟨[0], rfl, List.mem_cons_self .., rfl, fun a r fuel hfuel => ?_⟩
    obtain ⟨fuel, rfl⟩ := Nat.exists_eq_succ_of_ne_zero (Nat.ne_zero_of_lt hfuel)
    exact checkLoop_nul rfl
  | cons b x ih =>
    have hb : b ≠ 0 := fun h => hx (h ▸ List.mem_cons_self ..)
    have hx' : 0 ∉ x := fun h => hx (List.mem_cons_of_mem _ h)
    obtain ⟨y, hlen, hmem, hcstr, hloop⟩ := ih hx'
    by_cases hblank : IsBlank m b
    · -- the string is one byte shorter, and its old NUL is left behind it
      refine ⟨y ++ [0], by simp [hlen], List.mem_append_left _ hmem, ?_, fun a r fuel hfuel => ?_⟩
      · obtain ⟨z, w, rfl, -⟩ := List.eq_append_cons_of_mem hmem
        rw [List.append_assoc, List.cons_append, cstr_append_zero, ← cstr_append_zero z w, hcstr,
          cutFilter_blank hblank]
      · obtain ⟨fuel, rfl⟩ := Nat.exists_eq_succ_of_ne_zero (Nat.ne_zero_of_lt hfuel)
        rw [List.cons_append, checkLoop_blank rfl hb hx' hblank,
          hloop a (0 :: r) fuel (Nat.lt_of_succ_lt_succ hfuel), List.append_assoc y]
        rfl
    · by_cases hbreak : IsBreak m b
      · -- a NUL ends what has been kept, and the loop goes on behind it
        refine ⟨0 :: y, by simp [hlen], List.mem_cons_self .., ?_, fun a r fuel hfuel => ?_⟩
        · rw [cutFilter_break hbreak]
          rfl
        · obtain ⟨fuel, rfl⟩ := Nat.exists_eq_succ_of_ne_zero (Nat.ne_zero_of_lt hfuel)
          rw [List.cons_append, checkLoop_break rfl hb hbreak,
            hloop (a ++ [0]) r fuel (Nat.lt_of_succ_lt_succ hfuel), List.append_assoc]
          rfl
      · refine ⟨b :: y, by simp [hlen], List.mem_cons_of_mem _ hmem, ?_, fun a r fuel hfuel => ?_⟩
        · rw [cstr_cons, if_neg hb, hcstr, cutFilter_keep hblank hbreak]
        · obtain ⟨fuel, rfl⟩ := Nat.exists_eq_succ_of_ne_zero (Nat.ne_zero_of_lt hfuel)
          rw [List.cons_append, checkLoop_keep rfl hb hblank hbreak,
            hloop (a ++ [b]) r fuel (Nat.lt_of_succ_lt_succ hfuel), List.append_assoc]
          rfl

/-- For every string and all flags, and whatever is stored before and behind it: the function ends
without having left the string, its bytes up to the NUL are replaced by as many, of which those
before the first NUL are the text cut and filtered, and the other bytes of the buffer are as they
were. -/
theorem checkEscape_cutFilter (m : UInt8) (x : Text) :
    ∃ y, y.length = x.val.length + 1 ∧ 0 ∈ y ∧ cstr y = cutFilter m x.val ∧
      ∀ a r, checkEscapeAt m (a ++ (x.val ++ 0 :: r)) a.length = .ok (a ++ (y ++ r)) := by
  obtain ⟨y, hlen, hmem, hcstr, hloop⟩ := checkLoop_text m x.property
  refine ⟨y, hlen, hmem, hcstr, fun a r => ?_⟩
  rw [checkEscapeAt, escapeLoop_eq]
  refine hloop a r _ ?_
  rw [List.length_append, List.length_append, List.length_cons]
  omega

/-- Two blanks before the name, one within it, and a line end with a blank before and a byte
behind it. -/
example : (checkEscapeAt esAll [32, 32, 97, 9, 98, 32, 13, 10, 99, 0] 0).map cstr =
    .ok [97, 98] := by decide

end Loop

end Tst
