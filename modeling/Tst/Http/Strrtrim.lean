import Mathlib.Data.List.DropRight
import Tst.Http.Response
import Tst.Lib.Pointer

/-!
# Trimming a text

`strrtrim()` goes back from the last byte of a string to the last one that is not a delimiter. It
then clears its own pointer, where the byte behind that one was to be cleared, so that the string
stays as long as it was. `response_http()` calls it for the text of the status line.

## Main definitions

- `strrtrim` — the function
- `IsTrimmed` — the longest prefix that does not end in a delimiter
- `Trims` — the function cuts a string to that prefix
- `responseHttpTrim` — `response_http()` with its call of `strrtrim()`

## Main results

- `trimLoop_text` — the loop finds where the string is to be cut
- `strrtrim_iff` — it is cut only if there is nothing to be cut, and a response text that ends with
  a line end ends the header section
-/

namespace Tst

open Bytes CString

/-- `while (p >= str)`: the pointer `p` behind the loop. -/
def trimLoop (s d : List UInt8) (str : Int) : Nat → Int → Except Fault Int
  | 0, _ => .error .endless
  | fuel + 1, p =>
    if str ≤ p then do
      let c ← loadPtr s p
      let i ← find d (stopAt c) 0
      if (← load d i) = 0 then return p
      trimLoop s d str fuel (p - 1)
    else .ok p

/-- `strrtrim(str, delimiter)`, on the string that begins at `s[i]`: the memory afterwards. -/
def strrtrim (s : List UInt8) (i : Nat) (d : List UInt8) : Except Fault (List UInt8) := do
  if (← load s i) = 0 then return s
  if (← load d 0) = 0 then return s
  let e ← find s (· = 0) i
  let save : Int := e - 1
  let p ← trimLoop s d i (e - i + 1) save
  -- `p = '\0';` clears the pointer, and not what it points at
  let _p : Option Int := if p + 1 ≤ save then none else some (p + 1)
  return s

/-- `y` is the longest prefix of `x` that is empty or ends in a byte that is not in `d`. -/
structure IsTrimmed (d x y : List UInt8) : Prop where
  isPrefix : y <+: x
  ends : ∀ b ∈ y.getLast?, b ∉ d
  longest : ∀ z, z <+: x → (∀ b ∈ z.getLast?, b ∉ d) → z.length ≤ y.length

/-- `strrtrim(x, d)` cuts the string and touches nothing else, and a second call changes nothing. -/
def Trims (x d : Text) : Prop :=
  ∃ y, y.length = x.val.length + 1 ∧ 0 ∈ y ∧ IsTrimmed d.val x.val (cstr y) ∧
    ∀ a r, strrtrim (a ++ (x.val ++ 0 :: r)) a.length (d.val ++ [0]) = .ok (a ++ (y ++ r)) ∧
      strrtrim (a ++ (y ++ r)) a.length (d.val ++ [0]) = .ok (a ++ (y ++ r))

theorem crlf_noNul : 0 ∉ crlf := by decide

/-- The text of a response as `strrtrim(response_text, "\r\n")` leaves it. -/
def trimText (t : Text) : Except Fault Text := do
  let s ← strrtrim (t.val ++ [0]) 0 (crlf ++ [0])
  return ⟨cstr s, not_mem_cstr s⟩

/-- `response_http()`, from its first line on. -/
def responseHttpTrim (d : TstData) (r : ResponseInfo) : Except Fault (TstData × List UInt8) := do
  let text ← if r.responseText.val ≠ [] then trimText r.responseText else .ok r.responseText
  responseHttp d { r with responseText := text }

/-- The CR and LF at the end of the text. -/
def ResponseInfo.trail (r : ResponseInfo) : List UInt8 := r.responseText.val.rtakeWhile (· ∈ crlf)

/-- The header section ends within the status line, behind the trimmed text. -/
def EndedByTrail (r : ResponseInfo) (bytes : List UInt8) : Prop :=
  ∃ x y, bytes = x ++ (crlf ++ crlf) ++ y ∧
    r.statusLine.length ≤ x.length + r.trail.length + 2 ∧ x.length + 4 ≤ r.statusLine.length

-- ════════════════════════════════════════════════════════════════════════
-- The function
-- ════════════════════════════════════════════════════════════════════════

section Function

variable {s a t x d : List UInt8} {c : UInt8} {fuel : Nat} {str p : Int}

/-- A delimiter is found among the delimiters. -/
theorem find_delimiter (hd : 0 ∉ d) (hc : c ∈ d) :
    ∃ i, find (d ++ [0]) (stopAt c) 0 = .ok i ∧ load (d ++ [0]) i = .ok c := by
  obtain ⟨y, z, rfl, hy⟩ := List.eq_append_cons_of_mem hc
  have hy0 : 0 ∉ y := fun h => hd (List.mem_append_left _ h)
  have hs : y ++ c :: z ++ [0] = [] ++ (y ++ c :: (z ++ [0])) := by simp
  refine ⟨_, find_at hs rfl (stopAt_false hy0 hy) (by simp [stopAt]), ?_⟩
  rw [Nat.zero_add]
  exact load_at hs rfl

/-- For every other byte the NUL is found. -/
theorem find_kept (hd : 0 ∉ d) (hc : c ∉ d) :
    find (d ++ [0]) (stopAt c) 0 = .ok d.length ∧ load (d ++ [0]) d.length = .ok 0 := by
  have hs : d ++ [0] = [] ++ (d ++ 0 :: []) := rfl
  have hfind : find (d ++ [0]) (stopAt c) 0 = .ok (0 + d.length) :=
    find_at hs rfl (stopAt_false hd hc) (by simp [stopAt])
  rw [Nat.zero_add] at hfind
  exact ⟨hfind, load_at rfl rfl⟩

/-- A delimiter is passed over. -/
theorem trimLoop_delimiter (hs : s = a ++ c :: t) (hp : p = a.length) (hstr : str ≤ p)
    (hd : 0 ∉ d) (hc : c ∈ d) :
    trimLoop s (d ++ [0]) str (fuel + 1) p = trimLoop s (d ++ [0]) str fuel (p - 1) := by
  obtain ⟨i, hfind, hload⟩ := find_delimiter hd hc
  have h0 : c ≠ 0 := fun h => hd (h ▸ hc)
  rw [trimLoop, if_pos hstr, loadPtr_at hs hp, ok_bind, hfind, ok_bind, hload, ok_bind, if_neg h0]

/-- The loop ends at a byte that is kept. -/
theorem trimLoop_kept (hs : s = a ++ c :: t) (hp : p = a.length) (hstr : str ≤ p) (hd : 0 ∉ d)
    (hc : c ∉ d) : trimLoop s (d ++ [0]) str (fuel + 1) p = .ok p := by
  obtain ⟨hfind, hload⟩ := find_kept hd hc
  rw [trimLoop, if_pos hstr, loadPtr_at hs hp, ok_bind, hfind, ok_bind, hload, ok_bind, if_pos rfl]
  rfl

/-- The loop ends at the last byte that is to be kept, or before the string. -/
theorem trimLoop_text (hd : 0 ∉ d) (hs : s = a ++ (x ++ t)) (hfuel : x.length < fuel) :
    trimLoop s (d ++ [0]) a.length fuel (a.length + x.length - 1) =
      .ok (a.length + (x.rdropWhile (· ∈ d)).length - 1) := by
  induction x using List.reverseRecOn generalizing t fuel with
  | nil =>
    obtain ⟨fuel, rfl⟩ := Nat.exists_eq_succ_of_ne_zero (Nat.ne_zero_of_lt hfuel)
    rw [trimLoop, List.rdropWhile_nil, if_neg (by simp)]
  | append_singleton x c ih =>
    obtain ⟨fuel, rfl⟩ := Nat.exists_eq_succ_of_ne_zero (Nat.ne_zero_of_lt hfuel)
    rw [List.length_append, List.length_singleton] at hfuel ⊢
    have hs' : s = (a ++ x) ++ c :: t := by rw [hs]; simp
    have hp : (a.length : Int) + ((x.length + 1 : Nat) : Int) - 1 = ((a ++ x).length : Nat) := by
      rw [List.length_append]
      omega
    have hstr : (a.length : Int) ≤ a.length + ((x.length + 1 : Nat) : Int) - 1 := by omega
    by_cases hc : c ∈ d
    · have hback : (a.length : Int) + ((x.length + 1 : Nat) : Int) - 1 - 1 =
          a.length + x.length - 1 := by omega
      rw [trimLoop_delimiter hs' hp hstr hd hc, hback,
        List.rdropWhile_concat_pos (fun b => decide (b ∈ d)) x c (decide_eq_true hc)]
      exact ih (t := c :: t) (by rw [hs]; simp) (by omega)
    · rw [trimLoop_kept hs' hp hstr hd hc,
        List.rdropWhile_concat_neg (fun b => decide (b ∈ d)) x c (by simpa using hc),
        List.length_append, List.length_singleton]

/-- The memory stays as it is, whatever is around the string. -/
theorem strrtrim_eq (x d : Text) (a r : List UInt8) :
    strrtrim (a ++ (x.val ++ 0 :: r)) a.length (d.val ++ [0]) = .ok (a ++ (x.val ++ 0 :: r)) := by
  obtain ⟨x, hx⟩ := x
  obtain ⟨d, hd⟩ := d
  dsimp only
  rw [strrtrim]
  cases x with
  | nil =>
    have hload : load (a ++ ([] ++ 0 :: r)) a.length = .ok 0 := load_at rfl rfl
    rw [hload, ok_bind, if_pos rfl]
    rfl
  | cons b x =>
    have hb : b ≠ 0 := fun h => hx (h ▸ List.mem_cons_self ..)
    have hload : load (a ++ (b :: x ++ 0 :: r)) a.length = .ok b := load_at rfl rfl
    rw [hload, ok_bind, if_neg hb]
    cases d with
    | nil => rfl
    | cons c d =>
      have hc : c ≠ 0 := fun h => hd (h ▸ List.mem_cons_self ..)
      have hfirst : load (c :: d ++ [0]) 0 = .ok c := rfl
      have hfuel : a.length + (b :: x).length - a.length + 1 = (b :: x).length + 1 := by omega
      have hsave : ((a.length + (b :: x).length : Nat) : Int) - 1 =
          a.length + (b :: x).length - 1 := by omega
      have htrim := trimLoop_text (x := b :: x) hd rfl (Nat.lt_succ_self (b :: x).length)
        (a := a) (t := 0 :: r)
      rw [hfirst, ok_bind, if_neg hc, find_nul rfl rfl hx, ok_bind, hfuel, hsave]
      dsimp only
      rw [htrim]
      rfl

end Function

-- ════════════════════════════════════════════════════════════════════════
-- The longest prefix
-- ════════════════════════════════════════════════════════════════════════

section Longest

variable {d x : List UInt8}

theorem isTrimmed_rdropWhile (d x : List UInt8) : IsTrimmed d x (x.rdropWhile (· ∈ d)) := by
  induction x using List.reverseRecOn with
  | nil =>
    refine ⟨List.nil_prefix, by simp, fun z hz _ => ?_⟩
    exact hz.length_le
  | append_singleton x c ih =>
    by_cases hc : c ∈ d
    · rw [List.rdropWhile_concat_pos (fun b => decide (b ∈ d)) x c (decide_eq_true hc)]
      refine ⟨ih.isPrefix.trans (List.prefix_append x [c]), ih.ends, fun z hz hends => ?_⟩
      obtain rfl | hz := List.prefix_concat_iff.mp hz
      · exact absurd hc (hends c (by simp))
      · exact ih.longest z hz hends
    · rw [List.rdropWhile_concat_neg (fun b => decide (b ∈ d)) x c (by simpa using hc)]
      refine ⟨List.prefix_rfl, ?_, fun z hz _ => hz.length_le⟩
      simpa using hc

theorem IsTrimmed.eq {y : List UInt8} (h : IsTrimmed d x y) : y = x.rdropWhile (· ∈ d) := by
  have hmax := isTrimmed_rdropWhile d x
  have hle := h.longest _ hmax.isPrefix hmax.ends
  have hge := hmax.longest y h.isPrefix h.ends
  exact (List.prefix_of_prefix_length_le h.isPrefix hmax.isPrefix hge).eq_of_length
    (Nat.le_antisymm hge hle)

/-- Nothing is to be cut if the last byte is no delimiter. -/
theorem isTrimmed_self_iff : IsTrimmed d x x ↔ ∀ b ∈ x.getLast?, b ∉ d :=
  ⟨IsTrimmed.ends, fun h => ⟨List.prefix_rfl, h, fun _ hz _ => hz.length_le⟩⟩

/-- The function does what it should where there is nothing to be cut. -/
theorem trims_iff (x d : Text) : Trims x d ↔ ∀ b ∈ x.val.getLast?, b ∉ d.val := by
  rw [← isTrimmed_self_iff]
  constructor
  · rintro ⟨y, -, -, htrim, hrun⟩
    have hsame : [] ++ (x.val ++ 0 :: []) = [] ++ (y ++ []) :=
      Except.ok.inj ((strrtrim_eq x d [] []).symm.trans (hrun [] []).1)
    have hy : x.val ++ [0] = y := by simpa using hsame
    rwa [← hy, cstr_append x.property] at htrim
  · intro h
    refine ⟨x.val ++ [0], by simp, by simp, ?_, fun a r => ?_⟩
    · rwa [cstr_append x.property]
    · have heq := strrtrim_eq x d a r
      rw [List.append_assoc]
      exact ⟨heq, heq⟩

end Longest

-- ════════════════════════════════════════════════════════════════════════
-- The status line
-- ════════════════════════════════════════════════════════════════════════

section Response

variable {r : ResponseInfo} {bytes : List UInt8}

theorem trimText_eq (t : Text) : trimText t = .ok t := by
  have hrun := strrtrim_eq t ⟨crlf, crlf_noNul⟩ [] []
  rw [List.nil_append] at hrun
  have hmemory : strrtrim (t.val ++ [0]) 0 (crlf ++ [0]) = .ok (t.val ++ [0]) := hrun
  rw [trimText, hmemory, ok_bind]
  exact congrArg Except.ok (Subtype.ext (cstr_append t.property))

/-- The text is printed as it was given. -/
theorem responseHttpTrim_eq (d : TstData) (r : ResponseInfo) :
    responseHttpTrim d r = responseHttp d r := by
  rw [responseHttpTrim]
  split
  · rw [trimText_eq, ok_bind]
  · rw [ok_bind]

theorem statusLine_trail (r : ResponseInfo) :
    ∃ z, r.statusLine = z ++ (r.trail ++ crlf) := by
  have htext : r.responseText.val.rdropWhile (· ∈ crlf) ++ r.trail = r.responseText.val :=
    List.rdropWhile_append_rtakeWhile
  refine ⟨textHttp ++ r.httpVersion.val ++ 32 :: (printInt r.httpCode ++
    32 :: r.responseText.val.rdropWhile (· ∈ crlf)), ?_⟩
  rw [ResponseInfo.statusLine]
  conv_lhs => rw [← htext]
  simp

/-- A line end makes an empty line with the line end before it. -/
theorem emptyLine_iff (l : List UInt8) :
    crlf ++ crlf <:+: l ++ crlf ↔ crlf <:+ l ∨ crlf ++ crlf <:+: l := by
  constructor
  · rintro ⟨x, y, heq⟩
    obtain rfl | ⟨y, b, rfl⟩ := List.eq_nil_or_concat y
    · left
      rw [List.append_nil, ← List.append_assoc] at heq
      exact ⟨x, List.append_cancel_right heq⟩
    · have hlast : x ++ (crlf ++ crlf) ++ y ++ [b] = l ++ [13] ++ [10] := by simpa [crlf] using heq
      have hinit := (List.append_inj' hlast rfl).1
      obtain rfl | ⟨y, c, rfl⟩ := List.eq_nil_or_concat y
      · have hten : x ++ [13, 10, 13] ++ [10] = l ++ [13] := by simpa [crlf] using hinit
        exact absurd (List.append_inj' hten rfl).2 (by decide)
      · right
        have hthirteen : x ++ (crlf ++ crlf) ++ y ++ [c] = l ++ [13] := by simpa using hinit
        exact ⟨x, y, (List.append_inj' hthirteen rfl).1⟩
  · rintro (⟨x, rfl⟩ | hinfix)
    · exact ⟨x, [], by simp⟩
    · exact hinfix.trans (List.prefix_append l crlf).isInfix

theorem crlf_suffix_trail (r : ResponseInfo) : crlf <:+ r.trail ↔ crlf <:+ r.responseText.val := by
  constructor
  · exact fun h => h.trans (List.rtakeWhile_suffix _ _)
  · rintro ⟨x, hx⟩
    have htext : r.responseText.val = x ++ [13] ++ [10] := by rw [← hx]; simp [crlf]
    refine ⟨x.rtakeWhile (· ∈ crlf), ?_⟩
    rw [ResponseInfo.trail, htext,
      List.rtakeWhile_concat_pos (fun b => decide (b ∈ crlf)) (x ++ [13]) 10 (by decide),
      List.rtakeWhile_concat_pos (fun b => decide (b ∈ crlf)) x 13 (by decide)]
    simp [crlf]

/-- The section is ended by what is printed behind the trimmed text. -/
theorem endedByTrail_iff (hbytes : r.statusLine <+: bytes) : EndedByTrail r bytes ↔
    crlf <:+ r.responseText.val ∨ crlf ++ crlf <:+: r.trail := by
  rw [← crlf_suffix_trail, ← emptyLine_iff]
  obtain ⟨rest, rfl⟩ := hbytes
  obtain ⟨z, hz⟩ := statusLine_trail r
  have hlen : r.statusLine.length = z.length + (r.trail.length + 2) := by
    rw [hz, List.length_append, List.length_append]
    rfl
  constructor
  · rintro ⟨x, y, heq, hfrom, hto⟩
    obtain ⟨x', rfl⟩ : ∃ x', x = z ++ x' := by
      have hleft : z <+: r.statusLine ++ rest := by
        rw [hz, List.append_assoc]
        exact List.prefix_append ..
      have hright : x <+: r.statusLine ++ rest := by
        rw [heq, List.append_assoc]
        exact List.prefix_append ..
      obtain ⟨x', hx'⟩ := List.prefix_of_prefix_length_le hleft hright (by omega)
      exact ⟨x', hx'.symm⟩
    have hrest : (r.trail ++ crlf) ++ rest = x' ++ (crlf ++ crlf) ++ y := by
      rw [hz, List.append_assoc, List.append_assoc z, List.append_assoc z] at heq
      exact List.append_cancel_left heq
    rw [List.length_append] at hto
    have hinside : x' ++ (crlf ++ crlf) <+: (r.trail ++ crlf) ++ rest := by
      rw [hrest]
      exact List.prefix_append ..
    have hpre : x' ++ (crlf ++ crlf) <+: r.trail ++ crlf := by
      refine List.prefix_of_prefix_length_le hinside (List.prefix_append ..) ?_
      simp only [List.length_append, crlf, List.length_cons, List.length_nil]
      omega
    exact (List.infix_append' x' (crlf ++ crlf) []).trans (by simpa using hpre.isInfix)
  · rintro ⟨x', y', heq⟩
    refine ⟨z ++ x', y' ++ rest, ?_, ?_, ?_⟩
    · rw [hz, ← heq]
      simp
    · rw [List.length_append, hlen]
      omega
    · have hlen' := congrArg List.length heq
      simp only [List.length_append, crlf, List.length_cons, List.length_nil] at hlen'
      rw [List.length_append, hlen]
      omega

/-- For every string and all delimiters: the string is cut to its longest prefix that does not end
in a delimiter if and only if it does not end in one. And for every response that fits into the
buffer: the header section is ended within the status line by the CR and LF of the text if and only
if the text ends with CR LF, or an empty line is among the CR and LF at its end. -/
theorem strrtrim_iff (x d : Text) :
    (Trims x d ↔ ∀ b ∈ x.val.getLast?, b ∉ d.val) ∧
      ∀ (data : TstData) (r : ResponseInfo), data.WF → r.serialize.length < data.sLen.toNat →
        ∃ data' bytes, responseHttpTrim data r = .ok (data', bytes) ∧
          (EndedByTrail r bytes ↔ crlf <:+ r.responseText.val ∨ crlf ++ crlf <:+: r.trail) := by
  refine ⟨trims_iff x d, fun data r hwf hfit => ?_⟩
  obtain ⟨data', hdata'⟩ := responseHttp_serialize r hwf hfit
  refine ⟨data', r.serialize, by rw [responseHttpTrim_eq, hdata'], endedByTrail_iff ?_⟩
  rw [ResponseInfo.serialize, ResponseInfo.head, List.append_assoc]
  exact List.prefix_append ..

theorem okLine_noNul : (0 : UInt8) ∉ ([79, 75, 13, 10] : List UInt8) := by decide

theorem strrtrim_iff_ok :
    Trims aliveOk.responseText ⟨crlf, crlf_noNul⟩ ∧
      ∃ data' bytes, responseHttpTrim (.alloc 64) aliveOk = .ok (data', bytes) ∧
        ¬ EndedByTrail aliveOk bytes := by
  obtain ⟨htrims, hresponse⟩ := strrtrim_iff aliveOk.responseText ⟨crlf, crlf_noNul⟩
  obtain ⟨data', bytes, hbytes, hended⟩ :=
    hresponse (.alloc 64) aliveOk (TstData.alloc_wf 64) (by decide)
  have hlast : ∀ b ∈ aliveOk.responseText.val.getLast?, b ∉ crlf := by
    intro b hb
    obtain rfl : 75 = b := Option.some.inj hb
    decide
  exact ⟨htrims.mpr hlast, data', bytes, hbytes, fun h => absurd (hended.mp h) (by decide)⟩

/-- "OK" and a line end are not cut. -/
theorem strrtrim_not_trims : ¬ ∀ x d : Text, d.val ≠ [] → Trims x d := by
  intro h
  have htrims := h ⟨[79, 75, 13, 10], okLine_noNul⟩ ⟨crlf, crlf_noNul⟩ (by decide)
  exact absurd ((trims_iff _ _).mp htrims) (by decide)

end Response

end Tst
