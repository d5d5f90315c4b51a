import Mathlib.Logic.Function.Basic
import Tst.Http.Request

/-!
# Query strings

`CQueryString` cuts a text `name=value&name=value` in a copy of it. Names and values go through
two arrays of 128 bytes on the stack, in which `CheckEscape` deletes blanks and ends the string
at a line break.

## Main definitions

- `CQueryString.checkEscape`, `CQueryString.parse`, `CQueryString.get` — the functions
- `queryEntries` — the names and values of a text, in their order

## Main results

- `parseLoop_clean` — what `parse` makes of a text without blanks and line breaks
- `entries_separated` — no name holds `=`, and no value `&`
-/

namespace Tst

open CString

/-- `MAX_PARSE`. -/
def maxParse : Nat := 128

/-- The bits of `CheckCRLF`. -/
def esCr : UInt8 := 1
def esLf : UInt8 := 2
def esWs : UInt8 := 4
def esTab : UInt8 := 8
def esAll : UInt8 := 15

/-- `m_mapQuery`. -/
abbrev CQueryString : Type := List UInt8 → Option (List UInt8)

namespace CQueryString

/-- `for (char* p = pChk; *p; p++) *p = *(p + 1);`. -/
def moveLeft (s : List UInt8) (chk : Nat) : Except Fault (List UInt8) := do
  let e ← find s (· = 0) chk
  return s.take chk ++ Bytes.window s (chk + 1) (e - chk) ++ s.drop e

/-- The loop of `CheckEscape`. -/
def checkLoop (m : UInt8) : Nat → List UInt8 → Nat → Except Fault (List UInt8)
  | 0, _, _ => .error .endless
  | fuel + 1, s, chk => do
    let c ← load s chk
    if c = 0 then return s
    else if (c = 32 ∧ m &&& esWs ≠ 0) ∨ (c = 9 ∧ m &&& esTab ≠ 0) then
      checkLoop m fuel (← moveLeft s chk) chk
    else if (c = 13 ∧ m &&& esCr ≠ 0) ∨ (c = 10 ∧ m &&& esLf ≠ 0) then
      checkLoop m fuel (← store s chk 0) (chk + 1)
    else checkLoop m fuel s (chk + 1)

/-- `CheckEscape`, on the array that holds the string. -/
def checkEscape (m : UInt8) (s : List UInt8) : Except Fault (List UInt8) :=
  checkLoop m (2 * s.length + 1) s 0

/-- `if (_m > NONE) CheckEscape(sz, _m);`. -/
def escaped (m : UInt8) (s : List UInt8) : Except Fault (List UInt8) :=
  if m = 0 then .ok s else checkEscape m s

/-- The arrays of `Parse` when it is called. Nothing has been stored in them. -/
structure Arrays where
  szName : List UInt8
  szValue : List UInt8
  name_length : szName.length = maxParse
  value_length : szValue.length = maxParse

/-- The name that begins at `pNow`, its value, and what is behind the `&`, if there is one. -/
def splitParam (now : List UInt8) :
    Option (List UInt8 × List UInt8 × Option (List UInt8)) :=
  match cutAt 61 now with
  | none => none
  | some (name, now) =>
    if name = [] ∨ now = [] then none
    else
      match cutAt 38 now with
      | none => some (name, now, none)
      | some (value, rest) => some (name, value, some rest)

/-- `memcpy(sz, p, nLen); sz[nLen] = '\0';`, with `nLen` less than `MAX_PARSE`. -/
def copyPart (sz x : List UInt8) : List UInt8 :=
  x.take (maxParse - 1) ++ 0 :: sz.drop (min x.length (maxParse - 1) + 1)

/-- `m_mapQuery[szName] = szValue`. -/
def put (map : CQueryString) (e : List UInt8 × List UInt8) : CQueryString :=
  Function.update map e.1 (some e.2)

/-- The loop of `Parse`. -/
def parseLoop (m : UInt8) : Nat → List UInt8 → List UInt8 → List UInt8 → CQueryString →
    Except Fault CQueryString
  | 0, _, _, _, _ => .error .endless
  | fuel + 1, now, szName, szValue, map =>
    match splitParam now with
    | none => .ok map
    | some (name, value, rest) => do
      let szName ← escaped m (copyPart szName name)
      let szValue ← escaped m (copyPart szValue value)
      let map := put map (cstr szName, cstr szValue)
      match rest with
      | none => return map
      | some now => parseLoop m fuel now szName szValue map

/-- `Parse`. -/
def parse (map : CQueryString) (szQuery : List UInt8) (m : UInt8) (a : Arrays) :
    Except Fault CQueryString :=
  parseLoop m (szQuery.length + 1) szQuery a.szName a.szValue map

/-- The constructor, on a pointer into the receive buffer. -/
def new (s : List UInt8) (szQuery : Option Nat) (m : UInt8) (a : Arrays) :
    Except Fault CQueryString :=
  match szQuery with
  | none => .ok fun _ => none
  | some i => do parse (fun _ => none) (← str s i) m a

/-- `Get`. -/
def get (map : CQueryString) (szName : List UInt8) : List UInt8 := (map szName).getD []

end CQueryString

open CQueryString

/-- The arrays hold zeros. -/
def zeroArrays : Arrays where
  szName := List.replicate 128 0
  szValue := List.replicate 128 0
  name_length := List.length_replicate
  value_length := List.length_replicate

/-- The names and values of a text, as far as the arrays hold them. -/
def queryEntries : Nat → List UInt8 → List (List UInt8 × List UInt8)
  | 0, _ => []
  | fuel + 1, now =>
    match splitParam now with
    | none => []
    | some (name, value, rest) =>
      (name.take (maxParse - 1), value.take (maxParse - 1)) ::
        rest.elim [] fun now => queryEntries fuel now

/-- A byte that `CheckEscape` leaves alone. -/
def PlainByte (b : UInt8) : Prop := b ≠ 0 ∧ b ≠ 9 ∧ b ≠ 10 ∧ b ≠ 13 ∧ b ≠ 32

instance (b : UInt8) : Decidable (PlainByte b) :=
  inferInstanceAs (Decidable (_ ∧ _ ∧ _ ∧ _ ∧ _))

/-- A byte that `Parse` leaves alone when it is called with `m`. -/
def Untouched (m b : UInt8) : Prop := b ≠ 0 ∧ (m ≠ 0 → PlainByte b)

-- ════════════════════════════════════════════════════════════════════════
-- One name and its value
-- ════════════════════════════════════════════════════════════════════════

section Param

variable {now name value x r : List UInt8} {rest : Option (List UInt8)} {m : UInt8}

theorem splitParam_eq (h : splitParam now = some (name, value, rest)) :
    now = name ++ 61 :: (value ++ rest.elim [] (38 :: ·)) ∧ 61 ∉ name ∧ 38 ∉ value ∨
      0 ∈ now := by
  rw [splitParam] at h
  cases hname : cutAt 61 now with
  | none => simp [hname] at h
  | some p =>
    obtain ⟨n, now'⟩ := p
    obtain ⟨rfl, h61, -⟩ := (cutAt_eq_some (by decide)).mp hname
    by_cases hends : n = [] ∨ now' = []
    · simp [hname, hends] at h
    · simp only [hname, if_neg hends] at h
      cases hvalue : cutAt 38 now' with
      | none =>
        have h38 := (cutAt_eq_none (by decide)).mp hvalue
        simp only [hvalue, Option.some.injEq, Prod.mk.injEq] at h
        obtain ⟨rfl, rfl, rfl⟩ := h
        by_cases h0 : 0 ∈ now'
        · exact .inr (List.mem_append_right _ (List.mem_cons_of_mem _ h0))
        · rw [cstr_of_noNul h0] at h38
          exact .inl ⟨by rw [Option.elim_none, List.append_nil], h61, h38⟩
      | some p =>
        obtain ⟨v, r⟩ := p
        obtain ⟨rfl, h38, -⟩ := (cutAt_eq_some (by decide)).mp hvalue
        simp only [hvalue, Option.some.injEq, Prod.mk.injEq] at h
        obtain ⟨rfl, rfl, rfl⟩ := h
        exact .inl ⟨rfl, h61, h38⟩

/-- A name without `=` and a value without `&` are cut where they end. -/
theorem splitParam_at (rest : Option (List UInt8)) (h61 : 61 ∉ name) (h38 : 38 ∉ value)
    (hn0 : 0 ∉ name) (hv0 : 0 ∉ value) :
    splitParam (name ++ 61 :: (value ++ rest.elim [] (38 :: ·))) =
      if name = [] ∨ value ++ rest.elim [] (38 :: ·) = [] then none
      else some (name, value, rest) := by
  have hname : cutAt 61 (name ++ 61 :: (value ++ rest.elim [] (38 :: ·))) =
      some (name, value ++ rest.elim [] (38 :: ·)) := (cutAt_eq_some (by decide)).mpr ⟨rfl, h61, hn0⟩
  rw [splitParam, hname]
  dsimp only
  split
  · rfl
  · cases rest with
    | none =>
      have hcut : cutAt 38 value = none := by
        rw [cutAt_eq_none (by decide), cstr_of_noNul hv0]
        exact h38
      rw [Option.elim_none, List.append_nil, hcut]
    | some now =>
      have hcut : cutAt 38 (value ++ 38 :: now) = some (value, now) :=
        (cutAt_eq_some (by decide)).mpr ⟨rfl, h38, hv0⟩
      rw [Option.elim_some, hcut]

/-- Without a `=` there is no parameter. -/
theorem splitParam_noEq (h61 : 61 ∉ now) : splitParam now = none := by
  have hcut : cutAt 61 now = none :=
    (cutAt_eq_none (by decide)).mpr fun h => h61 (List.takeWhile_subset _ h)
  rw [splitParam, hcut]

/-- Text that has nothing to be deleted is left as it is. -/
theorem checkLoop_clean {s a : List UInt8} {fuel i : Nat} (hs : s = a ++ (x ++ 0 :: r))
    (hi : i = a.length) (hx : ∀ b ∈ x, PlainByte b) (hfuel : x.length < fuel) :
    checkLoop m fuel s i = .ok s := by
  induction x generalizing a i fuel with
  | nil =>
    obtain ⟨fuel, rfl⟩ := Nat.exists_eq_succ_of_ne_zero (Nat.pos_iff_ne_zero.mp hfuel)
    rw [checkLoop, load_at hs hi, ok_bind, if_pos rfl]
    rfl
  | cons b x ih =>
    obtain ⟨fuel, rfl⟩ := Nat.exists_eq_succ_of_ne_zero (Nat.ne_zero_of_lt hfuel)
    obtain ⟨h0, h9, h10, h13, h32⟩ := hx b (List.mem_cons_self ..)
    have hload : load s i = .ok b := load_at hs hi
    have hs' : s = (a ++ [b]) ++ (x ++ 0 :: r) := by rw [hs, List.append_assoc]; rfl
    have hi' : i + 1 = (a ++ [b]).length := length_next hi _
    rw [checkLoop, hload, ok_bind, if_neg h0, if_neg (by simp [h9, h32]),
      if_neg (by simp [h10, h13])]
    exact ih hs' hi' (fun c hc => hx c (List.mem_cons_of_mem _ hc)) (Nat.lt_of_succ_lt_succ hfuel)

theorem copyPart_untouched {sz : List UInt8} (hlen : sz.length = maxParse)
    (hx : ∀ b ∈ x, Untouched m b) :
    (copyPart sz x).length = maxParse ∧ cstr (copyPart sz x) = x.take (maxParse - 1) ∧
      escaped m (copyPart sz x) = .ok (copyPart sz x) := by
  have htake : ∀ b ∈ x.take (maxParse - 1), Untouched m b := fun b hb =>
    hx b (List.mem_of_mem_take hb)
  have h0 : 0 ∉ x.take (maxParse - 1) := fun h => (htake 0 h).1 rfl
  have hcopied : (copyPart sz x).length = maxParse := by
    simp only [copyPart, List.length_append, List.length_take, List.length_cons, List.length_drop,
      hlen, maxParse]
    omega
  refine ⟨hcopied, cstr_append h0, ?_⟩
  rw [escaped]
  split
  · rfl
  · next hm =>
    refine checkLoop_clean (a := []) rfl rfl (fun b hb => (htake b hb).2 hm) ?_
    rw [hcopied, List.length_take]
    omega

end Param

-- ════════════════════════════════════════════════════════════════════════
-- The whole text
-- ════════════════════════════════════════════════════════════════════════

section Entries

variable {now szName szValue : List UInt8} {map : CQueryString} {m : UInt8} {fuel : Nat}
  {l : List (List UInt8 × List UInt8)} {e : List UInt8 × List UInt8}

/-- Text in which nothing is to be escaped is cut into its entries. -/
theorem parseLoop_untouched (hnow : ∀ b ∈ now, Untouched m b) (hname : szName.length = maxParse)
    (hvalue : szValue.length = maxParse) (hfuel : now.length < fuel) :
    parseLoop m fuel now szName szValue map = .ok ((queryEntries fuel now).foldl put map) := by
  induction fuel generalizing now szName szValue map with
  | zero => exact absurd hfuel (Nat.not_lt_zero _)
  | succ fuel ih =>
    rw [parseLoop, queryEntries]
    cases hsplit : splitParam now with
    | none => rfl
    | some p =>
      obtain ⟨name, value, rest⟩ := p
      have h0 : 0 ∉ now := fun h => (hnow 0 h).1 rfl
      obtain ⟨rfl, -, -⟩ := (splitParam_eq hsplit).resolve_right h0
      have hn : ∀ b ∈ name, Untouched m b := fun b hb => hnow b (List.mem_append_left _ hb)
      have hrest : ∀ b ∈ value ++ rest.elim [] (38 :: ·), Untouched m b := fun b hb =>
        hnow b (List.mem_append_right _ (List.mem_cons_of_mem _ hb))
      have hv : ∀ b ∈ value, Untouched m b := fun b hb => hrest b (List.mem_append_left _ hb)
      obtain ⟨hnlen, hncopy, hncheck⟩ := copyPart_untouched hname hn
      obtain ⟨hvlen, hvcopy, hvcheck⟩ := copyPart_untouched hvalue hv
      dsimp only
      rw [hncheck, ok_bind, hvcheck, ok_bind, hncopy, hvcopy, List.foldl_cons]
      cases rest with
      | none => rfl
      | some now' =>
        refine ih (fun b hb => hrest b (List.mem_append_right _ (List.mem_cons_of_mem _ hb)))
          hnlen hvlen ?_
        simp only [List.length_append, List.length_cons, Option.elim_some] at hfuel
        omega

/-- Text without blanks and line breaks is cut into its entries. -/
theorem parseLoop_clean (hnow : ∀ b ∈ now, PlainByte b) (hname : szName.length = maxParse)
    (hvalue : szValue.length = maxParse) (hfuel : now.length < fuel) :
    parseLoop m fuel now szName szValue map = .ok ((queryEntries fuel now).foldl put map) :=
  parseLoop_untouched (fun b hb => ⟨(hnow b hb).1, fun _ => hnow b hb⟩) hname hvalue hfuel

theorem entries_separated (hnow : 0 ∉ now) (he : e ∈ queryEntries fuel now) :
    61 ∉ e.1 ∧ 38 ∉ e.2 := by
  induction fuel generalizing now with
  | zero => exact absurd he List.not_mem_nil
  | succ fuel ih =>
    rw [queryEntries] at he
    cases hsplit : splitParam now with
    | none => simp [hsplit] at he
    | some p =>
      obtain ⟨name, value, rest⟩ := p
      obtain ⟨rfl, h61, h38⟩ := (splitParam_eq hsplit).resolve_right hnow
      simp only [hsplit, List.mem_cons] at he
      obtain rfl | he := he
      · exact ⟨fun h => h61 (List.mem_of_mem_take h), fun h => h38 (List.mem_of_mem_take h)⟩
      · cases rest with
        | none => exact absurd he List.not_mem_nil
        | some now' =>
          refine ih (fun h => hnow ?_) he
          exact List.mem_append_right _ (List.mem_cons_of_mem _
            (List.mem_append_right _ (List.mem_cons_of_mem _ h)))

/-- What is in the map is one of the entries. -/
theorem mem_of_foldl_put {k v : List UInt8} (h : l.foldl put map k = some v) :
    (k, v) ∈ l ∨ map k = some v := by
  induction l generalizing map with
  | nil => exact .inr h
  | cons e l ih =>
    obtain hmem | hput := ih h
    · exact .inl (List.mem_cons_of_mem _ hmem)
    · by_cases hk : k = e.1
      · rw [put, hk, Function.update_self] at hput
        obtain rfl := Option.some.inj hput
        exact .inl (hk ▸ List.mem_cons_self ..)
      · rw [put, Function.update_of_ne hk] at hput
        exact .inr hput

theorem foldl_put_of_notMem {k : List UInt8} (h : k ∉ l.map Prod.fst) :
    l.foldl put map k = map k := by
  induction l generalizing map with
  | nil => rfl
  | cons e l ih =>
    rw [List.map_cons, List.mem_cons, not_or] at h
    rw [List.foldl_cons, ih h.2, put, Function.update_of_ne h.1]

/-- Entries with different names are all found. -/
theorem foldl_put_of_mem (hnodup : (l.map Prod.fst).Nodup) (he : e ∈ l) :
    l.foldl put map e.1 = some e.2 := by
  induction l generalizing map with
  | nil => exact absurd he List.not_mem_nil
  | cons e' l ih =>
    obtain ⟨hnot, hrest⟩ := List.nodup_cons.mp hnodup
    obtain rfl | he := List.mem_cons.mp he
    · rw [List.foldl_cons, foldl_put_of_notMem hnot, put, Function.update_self]
    · exact ih hrest he

end Entries

end Tst
