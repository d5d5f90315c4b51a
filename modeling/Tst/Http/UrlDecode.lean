import Mathlib.Logic.Relation
import Tst.Http.Query

/-!
# Decoding in place

`urlDecodeRewite()` writes the decoded string over the one that it reads. A byte is written only
where it is not yet in place, and the `%` that is no escape counts as such a byte.

## Main definitions

- `units`, `plainDecode` — a decoder that writes into another string
- `UrlDecoding` — the loop of the source between two passes

## Main results

- `UrlDecoding.run_bounds` — the write position never passes the read position
- `urlDecodeRewite_iff` — when the string is decoded as `plainDecode` does it
-/

namespace Tst

open CString

/-- What is written for a string, from the left: the byte of an escape, any other byte, and
`none` for a `%` that two characters follow which are no two digits. -/
def units : List UInt8 → List (Option UInt8)
  | [] => []
  | b :: s =>
    if b = 37 then
      match s with
      | x :: y :: r =>
        if isxdigit x && isxdigit y then some (hexDigit x * 16 + hexDigit y) :: units r
        else none :: units (x :: y :: r)
      | _ => []
    else some b :: units s

/-- The decoder that writes into another string. -/
def plainDecode (s : List UInt8) : List UInt8 := (units s).map (·.getD 37)

/-- The bytes that the decoder leaves where it has written `us` over `old`. -/
def overwrite (us : List (Option UInt8)) (old : List UInt8) : List UInt8 :=
  List.zipWith (fun u b => u.getD b) us old

/-- The loop of `urlDecodeRewite`, between two passes. -/
structure UrlDecoding where
  s : List UInt8
  i : Nat
  j : Nat

namespace UrlDecoding

/-- One pass of the loop; `none` is its end. -/
def pass (d : UrlDecoding) : Option UrlDecoding :=
  match d.s[d.i]? with
  | none => none
  | some b =>
    if b = 37 then
      match d.s[d.i + 1]?, d.s[d.i + 2]? with
      | some x, some y =>
        if isxdigit x && isxdigit y then
          some ⟨d.s.set d.j (hexDigit x * 16 + hexDigit y), d.i + 3, d.j + 1⟩
        else some ⟨d.s, d.i + 1, d.j + 1⟩
      | _, _ => none
    else some ⟨if d.j < d.i then d.s.set d.j b else d.s, d.i + 1, d.j + 1⟩

/-- The passes for a string. -/
def Run (s : List UInt8) : UrlDecoding → Prop :=
  Relation.ReflTransGen (fun d d' => d.pass = some d') ⟨s, 0, 0⟩

end UrlDecoding

section Passes

variable {s : List UInt8} {d d' : UrlDecoding} {fuel i j : Nat}

/-- The loop goes on as long as there are passes. -/
theorem urlDecodeLoop_pass : urlDecodeLoop (fuel + 1) s i j =
    match UrlDecoding.pass ⟨s, i, j⟩ with
    | none => (s, j)
    | some d => urlDecodeLoop fuel d.s d.i d.j := by
  rw [urlDecodeLoop, UrlDecoding.pass]
  cases hb : s[i]? with
  | none => rfl
  | some b =>
    by_cases hpercent : b = 37
    · cases hx : s[i + 1]? with
      | none => simp [hpercent]
      | some x =>
        cases hy : s[i + 2]? with
        | none => simp [hpercent]
        | some y =>
          by_cases hxy : (isxdigit x && isxdigit y) = true
          · simp [hpercent, hxy]
          · simp [hpercent, hxy]
    · simp [hpercent]

/-- A pass reads up to three bytes and writes at most one. -/
theorem UrlDecoding.pass_cases (h : d.pass = some d') : d.i < d.s.length ∧ d'.j = d.j + 1 ∧
    d.i + 1 ≤ d'.i ∧ d'.i ≤ d.s.length ∧ (d'.s = d.s ∨ ∃ b, d'.s = d.s.set d.j b) := by
  rw [pass] at h
  split at h
  · exact absurd h (by simp)
  · next b hb =>
    have hi : d.i < d.s.length := (List.getElem?_eq_some_iff.mp hb).1
    split at h
    · split at h
      · next x y hx hy =>
        have hi₂ : d.i + 2 < d.s.length := (List.getElem?_eq_some_iff.mp hy).1
        split at h
        · obtain rfl := Option.some.inj h
          exact ⟨hi, rfl, Nat.add_le_add_left (by decide) _, hi₂, .inr ⟨_, rfl⟩⟩
        · obtain rfl := Option.some.inj h
          exact ⟨hi, rfl, Nat.le_refl _, hi, .inl rfl⟩
      · exact absurd h (by simp)
    · obtain rfl := Option.some.inj h
      refine ⟨hi, rfl, Nat.le_refl _, hi, ?_⟩
      by_cases hlt : d.j < d.i
      · exact .inr ⟨b, if_pos hlt⟩
      · exact .inl (if_neg hlt)

/-- The write position never passes the read position, which stays in the string. -/
theorem UrlDecoding.run_bounds (h : Run s d) :
    d.j ≤ d.i ∧ d.i ≤ s.length ∧ d.s.length = s.length := by
  induction h with
  | refl => exact ⟨Nat.le_refl _, Nat.zero_le _, rfl⟩
  | @tail d d' _ hpass ih =>
    obtain ⟨hji, -, hlen⟩ := ih
    obtain ⟨-, hj, hi, hle, hs⟩ := pass_cases hpass
    have hlen' : d'.s.length = d.s.length := by
      obtain hs | ⟨b, hs⟩ := hs
      · rw [hs]
      · rw [hs, List.length_set]
    exact ⟨by omega, by omega, hlen'.trans hlen⟩

/-- The loop ends where there is no further pass. -/
theorem urlDecodeLoop_run (h : UrlDecoding.Run s d) (hfuel : s.length < fuel + d.i) :
    ∃ d', UrlDecoding.Run s d' ∧ d'.pass = none ∧ urlDecodeLoop fuel d.s d.i d.j = (d'.s, d'.j) := by
  induction fuel generalizing d with
  | zero =>
    have hle := (UrlDecoding.run_bounds h).2.1
    omega
  | succ fuel ih =>
    rw [urlDecodeLoop_pass]
    cases hpass : d.pass with
    | none => exact ⟨d, h, hpass, rfl⟩
    | some d' =>
      have hnext := (UrlDecoding.pass_cases hpass).2.2.1
      exact ih (h.tail hpass) (by omega)

end Passes

-- ════════════════════════════════════════════════════════════════════════
-- What the loop writes
-- ════════════════════════════════════════════════════════════════════════

section Loop

variable {s out rest old : List UInt8} {us : List (Option UInt8)} {x y b : UInt8} {fuel i : Nat}

theorem units_escape (hxy : (isxdigit x && isxdigit y) = true) (r : List UInt8) :
    units (37 :: x :: y :: r) = some (hexDigit x * 16 + hexDigit y) :: units r := by
  rw [units, if_pos rfl]
  exact if_pos hxy

theorem units_stray (hxy : ¬(isxdigit x && isxdigit y) = true) (r : List UInt8) :
    units (37 :: x :: y :: r) = none :: units (x :: y :: r) := by
  rw [units, if_pos rfl]
  exact if_neg hxy

theorem units_short (h : ∀ x y r, rest = x :: y :: r → False) : units (37 :: rest) = [] := by
  rw [units, if_pos rfl]
  exact h

theorem units_byte (hb : ¬b = 37) : units (b :: rest) = some b :: units rest := by
  rw [units.eq_def]
  exact if_neg hb

theorem length_units_le (s : List UInt8) : (units s).length ≤ s.length := by
  induction s using units.induct with
  | case1 => exact Nat.le_refl _
  | case2 x y r hxy ih =>
    rw [units_escape hxy]
    exact Nat.le_trans (Nat.succ_le_succ ih) (Nat.le_add_right _ 2)
  | case3 x y r hxy ih =>
    rw [units_stray hxy]
    exact Nat.succ_le_succ ih
  | case4 s hshort =>
    rw [units_short hshort]
    exact Nat.zero_le _
  | case5 b s hb ih =>
    rw [units_byte hb]
    exact Nat.succ_le_succ ih

/-- The string `s` and the write position, when `us` has been written behind `out`. -/
def written (s out : List UInt8) (us : List (Option UInt8)) : List UInt8 × Nat :=
  (out ++ overwrite us (s.drop out.length) ++ s.drop (out.length + us.length),
    out.length + us.length)

/-- One unit is written over the first byte that has not been overwritten. -/
theorem written_cons (hout : out.length < s.length) (u : Option UInt8) :
    written s out (u :: us) = written s (out ++ [u.getD s[out.length]]) us := by
  have hlen : out.length + (u :: us).length =
      (out ++ [u.getD s[out.length]]).length + us.length := by
    rw [List.length_append, List.length_cons, Nat.add_assoc, Nat.add_comm us.length]
    rfl
  have htext : out ++ overwrite (u :: us) (s.drop out.length) =
      out ++ [u.getD s[out.length]] ++
        overwrite us (s.drop (out ++ [u.getD s[out.length]]).length) := by
    conv_lhs => rw [List.drop_eq_getElem_cons hout]
    rw [List.length_append, List.append_assoc]
    rfl
  rw [written, htext, hlen]
  rfl

/-- What has not been read is as it was. -/
theorem getElem?_rest (hrest : s.drop i = rest) (hout : out.length ≤ i) (k : Nat) :
    (out ++ s.drop out.length)[i + k]? = rest[k]? := by
  rw [List.getElem?_append_right (by omega), List.getElem?_drop, ← hrest, List.getElem?_drop]
  congr 1
  omega

theorem drop_of_cons (hrest : s.drop i = b :: rest) : i < s.length ∧ s.drop (i + 1) = rest := by
  have hi : i < s.length := by
    by_contra hge
    rw [List.drop_eq_nil_iff.mpr (Nat.not_lt.mp hge)] at hrest
    exact absurd hrest (by simp)
  rw [List.drop_eq_getElem_cons hi] at hrest
  exact ⟨hi, (List.cons.inj hrest).2⟩

/-- A byte is written behind `out`. -/
theorem set_behind (hout : out.length < s.length) (v : UInt8) :
    (out ++ s.drop out.length).set out.length v = out ++ [v] ++ s.drop (out ++ [v]).length := by
  have hne : s.drop out.length ≠ [] := fun h => Nat.not_le.mpr hout (List.drop_eq_nil_iff.mp h)
  rw [set_write hne, List.drop_drop, List.length_append]
  rfl

/-- The byte that is there is left behind `out`. -/
theorem keep_behind (hout : out.length < s.length) :
    out ++ s.drop out.length =
      out ++ [s[out.length]] ++ s.drop (out ++ [s[out.length]]).length := by
  conv_lhs => rw [List.drop_eq_getElem_cons hout]
  rw [List.length_append, List.append_assoc]
  rfl

/-- The loop: `out` has been written, the bytes behind it are those of the string, and `rest` has
not been read. -/
theorem urlDecodeLoop_units (hrest : s.drop i = rest) (hout : out.length ≤ i)
    (hfuel : rest.length < fuel) :
    urlDecodeLoop fuel (out ++ s.drop out.length) i out.length = written s out (units rest) := by
  have hgrow (out : List UInt8) (v : UInt8) : (out ++ [v]).length = out.length + 1 :=
    List.length_append
  induction rest using units.induct generalizing out i fuel with
  | case1 =>
    obtain ⟨fuel, rfl⟩ := Nat.exists_eq_succ_of_ne_zero (Nat.ne_zero_of_lt hfuel)
    have hnone : (out ++ s.drop out.length)[i]? = none := getElem?_rest hrest hout 0
    rw [urlDecodeLoop, hnone]
    simp [units, overwrite, written]
  | case2 x y r hxy ih =>
    obtain ⟨fuel, rfl⟩ := Nat.exists_eq_succ_of_ne_zero (Nat.ne_zero_of_lt hfuel)
    have hread := getElem?_rest hrest hout
    have h₀ : (out ++ s.drop out.length)[i]? = some 37 := hread 0
    obtain ⟨hi, hrest₁⟩ := drop_of_cons hrest
    obtain ⟨-, hrest₂⟩ := drop_of_cons hrest₁
    obtain ⟨-, hrest₃⟩ := drop_of_cons hrest₂
    have hlt : out.length < s.length := Nat.lt_of_le_of_lt hout hi
    have hfuel' : r.length < fuel := by
      simp only [List.length_cons] at hfuel
      omega
    have hout' : (out ++ [hexDigit x * 16 + hexDigit y]).length ≤ i + 3 := by
      rw [hgrow]
      omega
    have hnext := ih hrest₃ hout' hfuel'
    rw [hgrow] at hnext
    rw [urlDecodeLoop, h₀]
    dsimp only
    rw [if_pos rfl, hread 1, hread 2]
    simp only [List.getElem?_cons_succ, List.getElem?_cons_zero]
    rw [if_pos hxy, set_behind hlt, units_escape hxy, written_cons hlt, hgrow]
    exact hnext
  | case3 x y r hxy ih =>
    obtain ⟨fuel, rfl⟩ := Nat.exists_eq_succ_of_ne_zero (Nat.ne_zero_of_lt hfuel)
    have hread := getElem?_rest hrest hout
    have h₀ : (out ++ s.drop out.length)[i]? = some 37 := hread 0
    obtain ⟨hi, hrest₁⟩ := drop_of_cons hrest
    have hlt : out.length < s.length := Nat.lt_of_le_of_lt hout hi
    have hout' : (out ++ [s[out.length]]).length ≤ i + 1 := by
      rw [hgrow]
      omega
    have hnext := ih hrest₁ hout' (Nat.lt_of_succ_lt_succ hfuel)
    rw [hgrow] at hnext
    rw [urlDecodeLoop, h₀]
    dsimp only
    rw [if_pos rfl, hread 1, hread 2]
    simp only [List.getElem?_cons_succ, List.getElem?_cons_zero]
    -- nothing is written, and the byte that is there takes the place of the `%`
    rw [if_neg hxy, units_stray hxy, written_cons hlt, keep_behind hlt, hgrow]
    exact hnext
  | case4 r hshort =>
    obtain ⟨fuel, rfl⟩ := Nat.exists_eq_succ_of_ne_zero (Nat.ne_zero_of_lt hfuel)
    have hread := getElem?_rest hrest hout
    have h₀ : (out ++ s.drop out.length)[i]? = some 37 := hread 0
    rw [urlDecodeLoop, h₀]
    dsimp only
    rw [if_pos rfl, hread 1, hread 2, units_short hshort]
    simp only [List.getElem?_cons_succ]
    split
    · next x y hx hy =>
      cases r with
      | nil => exact absurd hx (by simp)
      | cons x' r =>
        cases r with
        | nil => exact absurd hy (by simp)
        | cons y' r => exact (hshort x' y' r rfl).elim
    · simp [overwrite, written]
  | case5 b r hb ih =>
    obtain ⟨fuel, rfl⟩ := Nat.exists_eq_succ_of_ne_zero (Nat.ne_zero_of_lt hfuel)
    have h₀ : (out ++ s.drop out.length)[i]? = some b := getElem?_rest hrest hout 0
    obtain ⟨hi, hrest₁⟩ := drop_of_cons hrest
    have hlt : out.length < s.length := Nat.lt_of_le_of_lt hout hi
    have hout' : (out ++ [b]).length ≤ i + 1 := by
      rw [hgrow]
      omega
    have hnext := ih hrest₁ hout' (Nat.lt_of_succ_lt_succ hfuel)
    rw [hgrow] at hnext
    -- where the positions are the same, the byte is in its place
    have hstore : (if out.length < i then (out ++ s.drop out.length).set out.length b
        else out ++ s.drop out.length) = out ++ [b] ++ s.drop (out ++ [b]).length := by
      split
      · exact set_behind hlt b
      · next hge =>
        obtain rfl : out.length = i := Nat.le_antisymm hout (Nat.not_lt.mp hge)
        have hb : s[out.length] = b := by
          rw [List.drop_eq_getElem_cons hlt] at hrest
          exact (List.cons.inj hrest).1
        rw [keep_behind hlt, hb]
    rw [urlDecodeLoop, h₀]
    dsimp only
    rw [if_neg hb, units_byte hb, written_cons hlt, hstore, hgrow]
    exact hnext

/-- What the decoder leaves in place of a string. -/
theorem urlDecode_eq (s : List UInt8) :
    urlDecode s = (overwrite (units s) s ++ s.drop (units s).length).set (units s).length 0 := by
  have hloop := @urlDecodeLoop_units s [] s (s.length + 1) 0 rfl (Nat.le_refl _)
    (Nat.lt_succ_self _)
  rw [written, List.nil_append, List.nil_append, List.length_nil, List.drop_zero, Nat.zero_add]
    at hloop
  rw [urlDecode, hloop]

end Loop

-- ════════════════════════════════════════════════════════════════════════
-- The string that is left
-- ════════════════════════════════════════════════════════════════════════

section Result

variable {s a r : List UInt8} {us : List (Option UInt8)} {old : List UInt8}

theorem length_overwrite (h : us.length ≤ old.length) : (overwrite us old).length = us.length := by
  rw [overwrite, List.length_zipWith, Nat.min_eq_left h]

/-- Before the end of the string `us`, a stray `%` is written over a `%`. -/
def KeepsPercents (us : List (Option UInt8)) (old : List UInt8) (n : Nat) : Prop :=
  ∀ k, k < n → us[k]? = some none → old[k]? = some 37

theorem keepsPercents_cons {u : Option UInt8} {b : UInt8} {n : Nat} :
    KeepsPercents (u :: us) (b :: old) (n + 1) ↔ (u = none → b = 37) ∧ KeepsPercents us old n := by
  rw [KeepsPercents, ← Nat.and_forall_add_one]
  simp [KeepsPercents]

/-- What has been written are the units, if every stray `%` was one. -/
theorem overwrite_eq_iff (h : us.length ≤ old.length) :
    overwrite us old = us.map (·.getD 37) ↔ KeepsPercents us old us.length := by
  induction us generalizing old with
  | nil => simp [overwrite, KeepsPercents]
  | cons u us ih =>
    obtain ⟨b, old, rfl⟩ := List.exists_cons_of_length_pos (Nat.lt_of_lt_of_le (Nat.succ_pos _) h)
    have hrest := ih (Nat.le_of_succ_le_succ h)
    rw [List.length_cons, keepsPercents_cons, ← hrest]
    cases u with
    | none => simp [overwrite]
    | some v => simp [overwrite]

/-- The same up to the first NUL that an escape has put there. -/
theorem cstr_overwrite_eq_iff (h : us.length ≤ old.length) (h0 : 0 ∉ old) :
    cstr (overwrite us old) = cstr (us.map (·.getD 37)) ↔
      KeepsPercents us old (cstr (us.map (·.getD 37))).length := by
  induction us generalizing old with
  | nil => simp [overwrite, KeepsPercents, cstr]
  | cons u us ih =>
    obtain ⟨b, old, rfl⟩ := List.exists_cons_of_length_pos (Nat.lt_of_lt_of_le (Nat.succ_pos _) h)
    rw [List.mem_cons, not_or] at h0
    have hrest := ih (Nat.le_of_succ_le_succ h) h0.2
    have hover : overwrite (u :: us) (b :: old) = u.getD b :: overwrite us old := rfl
    rw [hover, List.map_cons, cstr_cons, cstr_cons]
    cases u with
    | none =>
      rw [Option.getD_none, Option.getD_none, if_neg (Ne.symm h0.1), if_neg (by decide),
        List.length_cons, keepsPercents_cons, ← hrest]
      simp
    | some v =>
      rw [Option.getD_some, Option.getD_some]
      by_cases hv : v = 0
      · simp [hv, KeepsPercents]
      · rw [if_neg hv, if_neg hv, List.length_cons, keepsPercents_cons, ← hrest]
        simp

/-- The string that is left, up to the NUL that was behind it. -/
theorem urlDecode_nul (s : List UInt8) :
    urlDecode s ++ [0] =
      overwrite (units s) s ++ 0 :: (s ++ [0]).drop ((units s).length + 1) := by
  have hle := length_units_le s
  have hlen := length_overwrite hle
  rw [urlDecode_eq, ← List.drop_drop, List.drop_append_of_le_length hle,
    List.set_append_right _ _ (Nat.le_of_eq hlen), hlen, Nat.sub_self, List.append_assoc]
  cases s.drop (units s).length with
  | nil => rfl
  | cons b l => rfl

/-- `urlDecodeRewite` on a string in a buffer. -/
theorem urlDecodeRewite_eq (a r : List UInt8) (h0 : 0 ∉ s) :
    urlDecodeRewite (a ++ (s ++ 0 :: r)) a.length =
      .ok (a ++ (overwrite (units s) s ++
        0 :: ((s ++ [0]).drop ((units s).length + 1) ++ r))) := by
  have hnul : urlDecode s ++ 0 :: r = urlDecode s ++ [0] ++ r := by
    rw [List.append_assoc]
    rfl
  rw [urlDecodeRewite_at rfl rfl h0, hnul, urlDecode_nul, List.append_assoc]
  rfl

/-- When a string is decoded in place as by the decoder that writes into another string, and when
it is as a C string, in which the byte of an escape may be the end. -/
theorem urlDecodeRewite_iff (a r : List UInt8) (h0 : 0 ∉ s) :
    (((∃ junk, urlDecodeRewite (a ++ (s ++ 0 :: r)) a.length =
            .ok (a ++ (plainDecode s ++ 0 :: (junk ++ r))) ∧
          (plainDecode s ++ junk).length = s.length) ∧
        ∀ d, UrlDecoding.Run s d → d.j ≤ d.i ∧ d.i ≤ s.length) ↔
      KeepsPercents (units s) s (units s).length) ∧
    (((∃ s', urlDecodeRewite (a ++ (s ++ 0 :: r)) a.length = .ok s' ∧
          str s' a.length = .ok (cstr (plainDecode s))) ∧
        ∀ d, UrlDecoding.Run s d → d.j ≤ d.i ∧ d.i ≤ s.length) ↔
      KeepsPercents (units s) s (cstr (plainDecode s)).length) := by
  have hbounds : ∀ d, UrlDecoding.Run s d → d.j ≤ d.i ∧ d.i ≤ s.length := fun d h =>
    ⟨(UrlDecoding.run_bounds h).1, (UrlDecoding.run_bounds h).2.1⟩
  have hle := length_units_le s
  have hlen : (plainDecode s).length = (overwrite (units s) s).length := by
    rw [length_overwrite hle, plainDecode, List.length_map]
  have hbytes : overwrite (units s) s = plainDecode s ↔
      KeepsPercents (units s) s (units s).length := overwrite_eq_iff hle
  have hcstr : cstr (overwrite (units s) s) = cstr (plainDecode s) ↔
      KeepsPercents (units s) s (cstr (plainDecode s)).length := cstr_overwrite_eq_iff hle h0
  rw [and_iff_left hbounds, and_iff_left hbounds, ← hbytes, ← hcstr, urlDecodeRewite_eq a r h0]
  constructor
  · constructor
    · rintro ⟨junk, hok, -⟩
      have htext := List.append_cancel_left (Except.ok.inj hok)
      exact (List.append_inj htext hlen.symm).1
    · intro heq
      refine ⟨(s ++ [0]).drop ((units s).length + 1), ?_, ?_⟩
      · rw [heq]
      · rw [List.length_append, hlen, length_overwrite hle, List.length_drop, List.length_append,
          List.length_singleton]
        omega
  · have hstr : str (a ++ (overwrite (units s) s ++
        0 :: ((s ++ [0]).drop ((units s).length + 1) ++ r))) a.length =
        .ok (cstr (overwrite (units s) s)) := by
      rw [str_at rfl rfl (by simp), cstr_append_zero]
    constructor
    · rintro ⟨s', hok, hs'⟩
      obtain rfl := Except.ok.inj hok
      exact Except.ok.inj (hstr.symm.trans hs')
    · intro heq
      exact ⟨_, rfl, hstr.trans (congrArg _ heq)⟩

/-- `%41%25%42` is decoded. -/
theorem urlDecodeRewite_iff_escapes :
    ∃ junk, urlDecodeRewite [37, 52, 49, 37, 50, 53, 37, 52, 50, 0] 0 =
      .ok ([65, 37, 66] ++ 0 :: (junk ++ [])) := by
  have h := (urlDecodeRewite_iff [] [] (s := [37, 52, 49, 37, 50, 53, 37, 52, 50]) (by decide)).1
  obtain ⟨⟨junk, hok, -⟩, -⟩ := h.mpr (by unfold KeepsPercents; decide)
  exact ⟨junk, hok⟩

/-- In `%41%zz` nothing is written for the second `%`, and the `4` that was there is left. -/
theorem urlDecodeRewite_stray :
    urlDecodeRewite [37, 52, 49, 37, 122, 122, 0] 0 = .ok [65, 52, 122, 122, 0, 122, 0] ∧
      ¬∃ junk, urlDecodeRewite [37, 52, 49, 37, 122, 122, 0] 0 =
        .ok (plainDecode [37, 52, 49, 37, 122, 122] ++ 0 :: junk) := by
  have hrun : urlDecodeRewite [37, 52, 49, 37, 122, 122, 0] 0 = .ok [65, 52, 122, 122, 0, 122, 0] := by
    decide
  have hplain : plainDecode [37, 52, 49, 37, 122, 122] = [65, 37, 122, 122] := by decide
  refine ⟨hrun, ?_⟩
  rintro ⟨junk, hok⟩
  rw [hrun, hplain] at hok
  exact absurd hok (by simp)

end Result

end Tst
