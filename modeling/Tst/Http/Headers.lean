import Mathlib.Data.Option.Defs
import Mathlib.Data.List.Forall2
import Tst.Http.Block

/-!
# The header lines

`parseHeaders` cuts the header lines into names and values in place. A line `name:_value`
followed by CR and another byte becomes the name, two NULs, and the value with a NUL where
the CR was; a line without `:` becomes a name without a value.

## Main definitions

- `layout`, `pointers` — the buffer and the table that it leaves
- `Denotes` — a header of the table stands for a field of the block

## Main results

- `parseHeaders_layout`, `parseHeaders_table` — what the loop does with up to 30 lines, and
  with more
- `pointers_denote` — the table stands for the fields
- `getHttpheader_lookup` — `get_httpheader` looks up the fields
-/

namespace Tst

open CString

/-- A header line: a byte that is not NUL, and then neither NUL nor CR. -/
def IsLine (line : List UInt8) : Prop := ∃ b x, line = b :: x ∧ b ≠ 0 ∧ 13 ∉ x ∧ 0 ∉ x

/-- No header line begins here. -/
def IsRest (rest : List UInt8) : Prop := ∀ b t, rest = b :: t → b ≠ 0 → cutAt 13 t = none

/-- The bytes of header lines, each with the byte that follows its CR. -/
def joinLines (ls : List (List UInt8 × UInt8)) : List UInt8 :=
  ls.flatMap fun l => l.1 ++ [13, l.2]

/-- What the parser leaves behind the name of a line. -/
def markTail (line : List UInt8) : List UInt8 :=
  match cutAt 58 (line.drop 1) with
  | none => []
  | some (_, v) => 0 :: v.set 0 0

/-- Where the value of a line begins. -/
def valueAt (line : List UInt8) : Option Nat :=
  (cutAt 58 (line.drop 1)).map fun (x, _) => x.length + 3

/-- What the parser leaves of the header lines. -/
def layout (ls : List (List UInt8)) : List UInt8 :=
  ls.flatMap fun line => (fieldOf line).name ++ markTail line ++ [0, 0]

/-- The headers of the table, when the first line begins at `i`. -/
def pointers (i : Nat) : List (List UInt8) → List HttpHeader
  | [] => []
  | line :: ls => ⟨i, (valueAt line).map (i + ·)⟩ :: pointers (i + line.length + 2) ls

section Lines

variable {line t rest : List UInt8} {ls : List (List UInt8 × UInt8)}

/-- The parts of a line. -/
theorem IsLine.parts (h : IsLine line) :
    (line = (fieldOf line).name ∧ markTail line = [] ∧ valueAt line = none ∧
        (fieldOf line).value = none ∧ cutAt 58 (line.drop 1) = none) ∨
      ∃ v, line = (fieldOf line).name ++ 58 :: v ∧ markTail line = 0 :: v.set 0 0 ∧
        valueAt line = some ((fieldOf line).name.length + 2) ∧
        (fieldOf line).value = some (v.drop 1) := by
  obtain ⟨b, l, rfl, -⟩ := h
  cases hcut : cutAt 58 l with
  | none => exact .inl ⟨by simp [fieldOf, hcut], by simp [markTail, hcut],
      by simp [valueAt, hcut], by simp [fieldOf, hcut], hcut⟩
  | some p =>
    obtain ⟨x, v⟩ := p
    obtain ⟨hl, -⟩ := (cutAt_eq_some (by decide)).mp hcut
    refine .inr ⟨v, ?_, by simp [markTail, hcut], by simp [valueAt, fieldOf, hcut],
      by simp [fieldOf, hcut]⟩
    simp only [fieldOf, hcut, List.cons_append]
    rw [hl]

theorem IsLine.not_mem (h : IsLine line) : 0 ∉ line := by
  obtain ⟨b, x, rfl, hb, -, hx⟩ := h
  simp [Ne.symm hb, hx]

theorem IsLine.not_mem_name (h : IsLine line) : 0 ∉ (fieldOf line).name := by
  intro h0
  rcases h.parts with ⟨hl, -⟩ | ⟨v, hl, -⟩
  · exact h.not_mem (hl ▸ h0)
  · exact h.not_mem (hl ▸ List.mem_append_left _ h0)

/-- A block is cut into its lines and a rest. -/
theorem headerLines_spec {fuel : Nat} (hfuel : t.length ≤ fuel) (hend : t.getLast? ≠ some 13) :
    ∃ ls rest, headerLines fuel t = ls.map Prod.fst ∧ t = joinLines ls ++ rest ∧
      (∀ l ∈ ls, IsLine l.1) ∧ IsRest rest := by
  induction fuel generalizing t with
  | zero =>
    obtain rfl := List.length_eq_zero_iff.mp (Nat.le_zero.mp hfuel)
    exact ⟨[], [], rfl, rfl, by simp, by simp [IsRest]⟩
  | succ fuel ih =>
    cases t with
    | nil => exact ⟨[], [], rfl, rfl, by simp, by simp [IsRest]⟩
    | cons b t =>
      by_cases hb : b = 0
      · refine ⟨[], b :: t, by simp [headerLines, hb], rfl, by simp, ?_⟩
        rintro b' t' heq hb'
        exact absurd hb ((List.cons.inj heq).1 ▸ hb')
      · cases hcut : cutAt 13 t with
        | none =>
          refine ⟨[], b :: t, by simp [headerLines, hb, hcut], rfl, by simp, ?_⟩
          rintro b' t' heq -
          rwa [← (List.cons.inj heq).2]
        | some p =>
          obtain ⟨x, r⟩ := p
          obtain ⟨rfl, h13, h0⟩ := (cutAt_eq_some (by decide)).mp hcut
          cases r with
          | nil => exact absurd (by rw [← List.cons_append, List.getLast?_concat]) hend
          | cons c r =>
            have hr : r.length ≤ fuel := by
              simp only [List.length_cons, List.length_append] at hfuel
              omega
            have hlast : r.getLast? ≠ some 13 := by
              intro hlast
              have hsuffix : b :: (x ++ 13 :: c :: r) = (b :: x ++ [13, c]) ++ r := by simp
              rw [hsuffix, List.getLast?_append, hlast] at hend
              exact hend rfl
            obtain ⟨ls, rest, hls, rfl, hall, hrest⟩ := ih hr hlast
            refine ⟨(b :: x, c) :: ls, rest, ?_, ?_, ?_, hrest⟩
            · simp [headerLines, hb, hcut, hls]
            · simp [joinLines]
            · intro l hl
              rcases List.mem_cons.mp hl with rfl | hl
              · exact ⟨b, x, rfl, hb, h13, h0⟩
              · exact hall l hl

end Lines

-- ════════════════════════════════════════════════════════════════════════
-- The loop
-- ════════════════════════════════════════════════════════════════════════

section Loop

variable {s a r z line rest : List UInt8} {i fuel : Nat} {headers : List HttpHeader}

/-- The name and the value of one line, whose CR has been overwritten. -/
theorem headerValue_at (hline : IsLine line) (hs : s = a ++ (line ++ 0 :: 0 :: r))
    (hi : i = a.length) :
    headerValue s i = .ok (a ++ ((fieldOf line).name ++ markTail line ++ 0 :: 0 :: r),
      (valueAt line).map (i + ·)) := by
  obtain ⟨b, l, rfl, hb, -, hl0⟩ := hline
  have hs₁ : s = (a ++ [b]) ++ (l ++ 0 :: 0 :: r) := by simp [hs]
  have hi₁ : i + 1 = (a ++ [b]).length := length_next hi _
  have hskip : skipTo 58 s i = find s (stopAt 58) (i + 1) := skipTo_at hs hi hb
  have hzero := cutAt_append_zero (c := 58) (by decide) l (0 :: r)
  cases hcut : cutAt 58 l with
  | none =>
    rw [hcut, Option.map_none] at hzero
    obtain ⟨hfind, -⟩ := find_cutAt_none hs₁ hi₁ (by decide) hzero (by simp)
    rw [cstr_append hl0] at hfind
    have hload : load s (i + 1 + l.length) = .ok 0 := by
      refine load_at (a := a ++ [b] ++ l) (r := 0 :: r) (by simp [hs]) ?_
      rw [List.length_append, ← hi₁]
    rw [headerValue, hskip, hfind, ok_bind, hload, ok_bind, if_neg (by decide), hs]
    simp [fieldOf, markTail, valueAt, hcut, pure, Except.pure]
  | some p =>
    obtain ⟨x, v⟩ := p
    obtain ⟨rfl, -⟩ := (cutAt_eq_some (by decide)).mp hcut
    rw [hcut, Option.map_some] at hzero
    have hfind := find_cutAt hs₁ hi₁ (by decide) hzero
    have hs₂ : s = (a ++ b :: x) ++ 58 :: (v ++ 0 :: 0 :: r) := by simp [hs]
    have hi₂ : i + 1 + x.length = (a ++ b :: x).length := by
      simp only [List.length_append, List.length_cons]
      omega
    have hload := load_at hs₂ hi₂
    have hstore := store_at hs₂ hi₂ 0
    -- the byte after the `:` may be where the CR was
    have hstore' : store ((a ++ b :: x) ++ 0 :: (v ++ 0 :: 0 :: r)) (i + 1 + x.length + 1) 0 =
        .ok (((a ++ b :: x) ++ [0]) ++ (v.set 0 0 ++ 0 :: 0 :: r)) := by
      have hi₃ : i + 1 + x.length + 1 = ((a ++ b :: x) ++ [0]).length := by
        rw [List.length_append, ← hi₂]
        rfl
      cases v with
      | nil => exact store_at (List.append_assoc _ [0] _).symm hi₃ 0
      | cons c v => exact store_at (List.append_assoc _ [0] _).symm hi₃ 0
    have hplus : i + 1 + x.length + 2 = i + (x.length + 3) := by omega
    rw [headerValue, hskip, hfind, ok_bind, hload, ok_bind, if_pos rfl, hstore, ok_bind, hstore',
      ok_bind, hplus]
    simp [fieldOf, markTail, valueAt, hcut, pure, Except.pure]

/-- The CR of one line is found and overwritten, and the byte after it. -/
theorem line_end {c : UInt8} (hline : IsLine line) (hs : s = a ++ (line ++ 13 :: c :: r))
    (hi : i = a.length) :
    ∃ b, load s i = .ok b ∧ b ≠ 0 ∧ skipTo 13 s i = .ok (i + line.length) ∧
      load s (i + line.length) = .ok 13 ∧
      ∃ s', store s (i + line.length) 0 = .ok s' ∧
        store s' (i + line.length + 1) 0 = .ok (a ++ (line ++ 0 :: 0 :: r)) := by
  obtain ⟨b, l, rfl, hb, h13, h0⟩ := hline
  have hs₁ : s = (a ++ [b]) ++ (l ++ 13 :: c :: r) := by simp [hs]
  have hi₁ : i + 1 = (a ++ [b]).length := length_next hi _
  have hfind : find s (stopAt 13) (i + 1) = .ok (i + 1 + l.length) :=
    find_at hs₁ hi₁ (stopAt_false h0 h13) rfl
  have hs₂ : s = (a ++ b :: l) ++ 13 :: (c :: r) := by simp [hs]
  have hi₂ : i + (b :: l).length = (a ++ b :: l).length := by rw [List.length_append, hi]
  have hend : i + (b :: l).length = i + 1 + l.length := by
    rw [List.length_cons]
    omega
  refine ⟨b, load_at hs hi, hb, ?_, load_at hs₂ hi₂, _, store_at hs₂ hi₂ 0, ?_⟩
  · rw [skipTo_at hs hi hb, hfind, hend]
  · have hs₃ : (a ++ b :: l) ++ 0 :: c :: r = ((a ++ b :: l) ++ [0]) ++ c :: r := by simp
    rw [store_at hs₃ (by rw [List.length_append, ← hi₂]; rfl)]
    simp

/-- One header line. -/
theorem parseHeaders_line {c : UInt8} (hline : IsLine line)
    (hs : s = a ++ (line ++ 13 :: c :: r)) (hi : i = a.length) :
    parseHeaders (fuel + 1) s i headers =
      if headers.length < httpMaxHeaders then
        parseHeaders fuel (a ++ ((fieldOf line).name ++ markTail line ++ 0 :: 0 :: r))
          (i + line.length + 2) (headers ++ [⟨i, (valueAt line).map (i + ·)⟩])
      else .error .table := by
  obtain ⟨b, hload, hb, hskip, hcr, s', hstore, hstore'⟩ := line_end hline hs hi
  rw [parseHeaders, hload, ok_bind, if_neg hb, hskip, ok_bind, hcr, ok_bind, if_pos rfl, hstore,
    ok_bind, hstore', ok_bind]
  by_cases hroom : headers.length < httpMaxHeaders
  · rw [if_pos hroom, if_pos hroom, headerValue_at hline rfl hi, ok_bind]
  · rw [if_neg hroom, if_neg hroom]

/-- Where no header line begins the loop ends. -/
theorem parseHeaders_rest (hrest : IsRest rest) (hs : s = a ++ (rest ++ 0 :: z))
    (hi : i = a.length) : parseHeaders (fuel + 1) s i headers = .ok (s, headers) := by
  cases rest with
  | nil =>
    have hload : load s i = .ok 0 := load_at hs hi
    rw [parseHeaders, hload, ok_bind, if_pos rfl]
    rfl
  | cons b t =>
    have hload : load s i = .ok b := load_at hs hi
    rw [parseHeaders, hload, ok_bind]
    by_cases hb : b = 0
    · rw [if_pos hb]
      rfl
    · have hs₁ : s = (a ++ [b]) ++ (t ++ 0 :: z) := by simp [hs]
      have hi₁ : i + 1 = (a ++ [b]).length := length_next hi _
      have hcut : cutAt 13 (t ++ 0 :: z) = none := by
        rw [cutAt_append_zero (by decide), hrest b t rfl hb, Option.map_none]
      obtain ⟨hfind, r, hr⟩ := find_cutAt_none hs₁ hi₁ (by decide) hcut (by simp)
      have hnul : load s (i + 1 + (cstr (t ++ 0 :: z)).length) = .ok 0 := by
        rw [hr, ← List.append_assoc] at hs₁
        exact load_at hs₁ (by rw [List.length_append, ← hi₁])
      rw [if_neg hb, skipTo_at hs hi hb, hfind, ok_bind, hnul, ok_bind, if_neg (by decide)]
      rfl

theorem layout_cons (line : List UInt8) (ls : List (List UInt8)) :
    layout (line :: ls) = (fieldOf line).name ++ markTail line ++ [0, 0] ++ layout ls := rfl

theorem IsLine.length_marked (h : IsLine line) :
    ((fieldOf line).name ++ markTail line).length = line.length := by
  rcases h.parts with ⟨hl, hmark, -⟩ | ⟨v, hl, hmark, -⟩
  · rw [hmark, List.append_nil, ← hl]
  · rw [hmark]
    conv_rhs => rw [hl]
    simp

/-- The loop over up to 30 header lines. -/
theorem parseHeaders_layout {ls : List (List UInt8 × UInt8)} (hall : ∀ l ∈ ls, IsLine l.1)
    (hrest : IsRest rest) (hs : s = a ++ (joinLines ls ++ (rest ++ 0 :: z))) (hi : i = a.length)
    (hroom : headers.length + ls.length ≤ httpMaxHeaders) (hfuel : ls.length < fuel) :
    parseHeaders fuel s i headers =
      .ok (a ++ (layout (ls.map Prod.fst) ++ (rest ++ 0 :: z)),
        headers ++ pointers i (ls.map Prod.fst)) := by
  induction ls generalizing s a i headers fuel with
  | nil =>
    obtain ⟨fuel, rfl⟩ := Nat.exists_eq_succ_of_ne_zero (Nat.ne_of_gt hfuel)
    rw [parseHeaders_rest hrest hs hi, hs]
    simp [joinLines, layout, pointers]
  | cons l ls ih =>
    obtain ⟨fuel, rfl⟩ := Nat.exists_eq_succ_of_ne_zero (Nat.ne_of_gt (Nat.zero_lt_of_lt hfuel))
    have hline := hall l (List.mem_cons_self ..)
    have hs₁ : s = a ++ (l.1 ++ 13 :: l.2 :: (joinLines ls ++ (rest ++ 0 :: z))) := by
      rw [hs]
      simp [joinLines]
    rw [List.length_cons] at hroom hfuel
    have hs₂ : a ++ ((fieldOf l.1).name ++ markTail l.1 ++
        0 :: 0 :: (joinLines ls ++ (rest ++ 0 :: z))) =
        (a ++ ((fieldOf l.1).name ++ markTail l.1 ++ [0, 0])) ++
          (joinLines ls ++ (rest ++ 0 :: z)) := by simp
    have hi₂ : i + l.1.length + 2 =
        (a ++ ((fieldOf l.1).name ++ markTail l.1 ++ [0, 0])).length := by
      rw [List.length_append, List.length_append, hline.length_marked, hi]
      rfl
    rw [parseHeaders_line hline hs₁ hi, if_pos (by omega),
      ih (fun m hm => hall m (List.mem_cons_of_mem _ hm)) hs₂ hi₂
        (by rw [List.length_append, List.length_singleton]; omega) (by omega)]
    simp [layout_cons, pointers]

/-- The loop over more than 30 header lines writes past the table. -/
theorem parseHeaders_table {ls : List (List UInt8 × UInt8)} (hall : ∀ l ∈ ls, IsLine l.1)
    (hs : s = a ++ (joinLines ls ++ r)) (hi : i = a.length)
    (hfull : headers.length ≤ httpMaxHeaders) (hmore : httpMaxHeaders < headers.length + ls.length)
    (hfuel : ls.length < fuel) : parseHeaders fuel s i headers = .error .table := by
  induction ls generalizing s a i headers fuel with
  | nil => exact absurd hmore (Nat.not_lt.mpr hfull)
  | cons l ls ih =>
    obtain ⟨fuel, rfl⟩ := Nat.exists_eq_succ_of_ne_zero (Nat.ne_of_gt (Nat.zero_lt_of_lt hfuel))
    have hline := hall l (List.mem_cons_self ..)
    have hs₁ : s = a ++ (l.1 ++ 13 :: l.2 :: (joinLines ls ++ r)) := by
      rw [hs]
      simp [joinLines]
    rw [List.length_cons] at hmore hfuel
    rw [parseHeaders_line hline hs₁ hi]
    by_cases hroom : headers.length < httpMaxHeaders
    · have hs₂ : a ++ ((fieldOf l.1).name ++ markTail l.1 ++ 0 :: 0 :: (joinLines ls ++ r)) =
          (a ++ ((fieldOf l.1).name ++ markTail l.1 ++ [0, 0])) ++ (joinLines ls ++ r) := by simp
      have hi₂ : i + l.1.length + 2 =
          (a ++ ((fieldOf l.1).name ++ markTail l.1 ++ [0, 0])).length := by
        rw [List.length_append, List.length_append, hline.length_marked, hi]
        rfl
      rw [if_pos hroom]
      exact ih (fun m hm => hall m (List.mem_cons_of_mem _ hm)) hs₂ hi₂
        (by rw [List.length_append, List.length_singleton]; omega)
        (by rw [List.length_append, List.length_singleton]; omega) (by omega)
    · rw [if_neg hroom]

end Loop

-- ════════════════════════════════════════════════════════════════════════
-- The table and the fields
-- ════════════════════════════════════════════════════════════════════════

/-- A header of the table stands for a field. -/
structure Denotes (s : List UInt8) (header : HttpHeader) (f : Field) : Prop where
  name : str s header.name = .ok f.name
  value : Option.Rel (fun p v => str s p = .ok v) header.value f.value

section Table

variable {s a r line name' : List UInt8} {i : Nat}

/-- The header of a line, whose name may have been edited since. -/
theorem line_denotes (hline : IsLine line) (hlen : name'.length = (fieldOf line).name.length)
    (hs : s = a ++ (name' ++ markTail line ++ 0 :: 0 :: r)) (hi : i = a.length) :
    Denotes s ⟨i, (valueAt line).map (i + ·)⟩ ⟨cstr name', (fieldOf line).value⟩ := by
  rcases hline.parts with ⟨-, hmark, hvalue, hnone, -⟩ | ⟨v, hl, hmark, hvalue, hsome⟩
  · rw [hmark, List.append_nil] at hs
    refine ⟨?_, ?_⟩
    · rw [str_at hs hi (by simp), cstr_append_zero]
    · rw [hvalue, hnone]
      exact .none
  · rw [hmark, List.append_assoc, List.cons_append] at hs
    refine ⟨?_, ?_⟩
    · rw [str_at hs hi (by simp), cstr_append_zero]
    · have hi₂ : i + ((fieldOf line).name.length + 2) = (a ++ (name' ++ [0, 0])).length := by
        rw [List.length_append, List.length_append, hlen, hi]
        rfl
      rw [hvalue, hsome]
      refine .some ?_
      cases v with
      | nil =>
        have hs₂ : s = (a ++ (name' ++ [0, 0])) ++ 0 :: r := by simp [hs]
        rw [str_at hs₂ hi₂ (List.mem_cons_self ..)]
        rfl
      | cons c v =>
        have hs₂ : s = (a ++ (name' ++ [0, 0])) ++ (v ++ 0 :: 0 :: r) := by simp [hs]
        have hv : 0 ∉ v := fun h0 => hline.not_mem (by rw [hl]; simp [h0])
        rw [str_at hs₂ hi₂ (by simp), cstr_append hv]
        rfl

/-- The table stands for the fields. -/
theorem pointers_denote {ls : List (List UInt8)} (hall : ∀ l ∈ ls, IsLine l)
    (hs : s = a ++ (layout ls ++ r)) (hi : i = a.length) :
    List.Forall₂ (Denotes s) (pointers i ls) (ls.map fieldOf) := by
  induction ls generalizing a i with
  | nil => exact .nil
  | cons line ls ih =>
    have hline := hall line (List.mem_cons_self ..)
    rw [layout_cons] at hs
    refine .cons ?_ (ih (fun l hl => hall l (List.mem_cons_of_mem _ hl))
      (a := a ++ ((fieldOf line).name ++ markTail line ++ [0, 0])) (by simp [hs]) ?_)
    · have hs₁ : s = a ++ ((fieldOf line).name ++ markTail line ++ 0 :: 0 :: (layout ls ++ r)) := by
        simp [hs]
      have h := line_denotes hline rfl hs₁ hi
      rwa [cstr_of_noNul hline.not_mem_name] at h
    · rw [List.length_append, List.length_append, hline.length_marked, hi]
      rfl

/-- The same, when the name of the first line has been edited since. -/
theorem pointers_denote_cons {ls : List (List UInt8)} (hline : IsLine line)
    (hall : ∀ l ∈ ls, IsLine l) (hlen : name'.length = (fieldOf line).name.length)
    (hs : s = a ++ (name' ++ markTail line ++ 0 :: 0 :: (layout ls ++ r))) (hi : i = a.length) :
    List.Forall₂ (Denotes s) (pointers i (line :: ls))
      (⟨cstr name', (fieldOf line).value⟩ :: ls.map fieldOf) := by
  refine .cons (line_denotes hline hlen hs hi) (pointers_denote hall
    (a := a ++ (name' ++ markTail line ++ [0, 0])) (r := r) (by simp [hs]) ?_)
  have hmarked := hline.length_marked
  rw [List.length_append] at hmarked
  simp only [List.length_append, List.length_cons, List.length_nil, hlen, hi]
  omega

/-- `get_httpheader` finds the first field of a name. -/
theorem getHttpheader_lookup {headers : List HttpHeader} {fs : List Field}
    (h : List.Forall₂ (Denotes s) headers fs) (name : List UInt8) :
    getHttpheader s headers name = .ok (lookup fs name) := by
  induction h with
  | nil => rfl
  | @cons header f headers fs hd _ ih =>
    rw [getHttpheader, hd.name, ok_bind]
    by_cases hname : f.name = name
    · have hfind : lookup (f :: fs) name = f.value := by
        rw [lookup, List.find?_cons_of_pos (by simpa using hname)]
      obtain ⟨n, value⟩ := header
      obtain ⟨fname, fvalue⟩ := f
      have hvalue : Option.Rel (fun p v => str s p = .ok v) value fvalue := hd.value
      rw [if_pos hname, hfind]
      cases hvalue with
      | none => rfl
      | some hstr =>
        simp only [hstr, ok_bind]
        rfl
    · rw [if_neg hname, ih, lookup, lookup, List.find?_cons_of_neg (by simpa using hname)]

end Table

end Tst
