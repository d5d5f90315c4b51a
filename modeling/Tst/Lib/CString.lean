import Tst.Lib.Bytes

/-!
# Strings in a buffer

A program that edits text in place walks through a buffer with pointers, up to a byte that
it looks for or to the NUL. Pointers are indices. An access outside the buffer, a NULL that
is dereferenced and an index outside a table are faults.

## Main definitions

- `Fault` — what a program must not do
- `load`, `store`, `find`, `skipTo`, `str` — the accesses and loops
- `cstr`, `cutAt` — a string in a list of bytes, and what comes before a separator

## Main results

- `load_at`, `store_at`, `find_at`, `str_at` — the accesses, on a buffer that is split where
  the pointer points
- `find_cutAt` — a loop up to a separator or the NUL cuts the text there
-/

namespace CString

/-- What a program must not do. -/
inductive Fault
  /-- an index outside the buffer -/
  | bounds
  /-- NULL dereferenced -/
  | null
  /-- an index outside a table of fixed size -/
  | table
  /-- a loop that does not end -/
  | endless
  deriving DecidableEq, Repr

/-- `s[i]`. -/
def load (s : List UInt8) (i : Nat) : Except Fault UInt8 :=
  match s[i]? with
  | some b => .ok b
  | none => .error .bounds

/-- `s[i] = b`. -/
def store (s : List UInt8) (i : Nat) (b : UInt8) : Except Fault (List UInt8) :=
  if i < s.length then .ok (s.set i b) else .error .bounds

/-- `while (!p(s[i])) i++;`. -/
def find (s : List UInt8) (p : UInt8 → Bool) (i : Nat) : Except Fault Nat :=
  match (s.drop i).findIdx? p with
  | some k => .ok (i + k)
  | none => .error .bounds

/-- The byte ends a string, or is the separator `c`. -/
def stopAt (c b : UInt8) : Bool := b = 0 || b = c

/-- `while (s[i] && s[++i] != c);`. -/
def skipTo (c : UInt8) (s : List UInt8) (i : Nat) : Except Fault Nat := do
  if (← load s i) = 0 then return i
  find s (stopAt c) (i + 1)

/-- A pointer that is dereferenced. -/
def deref {α : Type*} : Option α → Except Fault α
  | some a => .ok a
  | none => .error .null

/-- The bytes before the first NUL. -/
def cstr (s : List UInt8) : List UInt8 := s.takeWhile (· ≠ 0)

/-- The string that begins at `s[i]`. -/
def str (s : List UInt8) (i : Nat) : Except Fault (List UInt8) := do
  let e ← find s (· = 0) i
  return Bytes.window s i (e - i)

/-- What comes before and after the first `c`, if no NUL is before it. -/
def cutAt (c : UInt8) : List UInt8 → Option (List UInt8 × List UInt8)
  | [] => none
  | b :: l =>
    if b = c then some ([], l)
    else if b = 0 then none
    else (cutAt c l).map fun (x, r) => (b :: x, r)

section Lists

variable {c : UInt8} {l x r : List UInt8}

theorem cstr_cons (b : UInt8) (l : List UInt8) :
    cstr (b :: l) = if b = 0 then [] else b :: cstr l := by
  by_cases hb : b = 0
  · simp [cstr, hb]
  · simp [cstr, hb]

theorem cstr_append_zero (x r : List UInt8) : cstr (x ++ 0 :: r) = cstr x := by
  induction x with
  | nil => rfl
  | cons b x ih =>
    rw [List.cons_append, cstr_cons, cstr_cons, ih]

theorem cstr_of_noNul (h : 0 ∉ l) : cstr l = l := by
  induction l with
  | nil => rfl
  | cons b l ih =>
    have hb : b ≠ 0 := fun h0 => h (h0 ▸ List.mem_cons_self ..)
    rw [cstr_cons, if_neg hb, ih fun h0 => h (List.mem_cons_of_mem _ h0)]

theorem cstr_append (hx : 0 ∉ x) : cstr (x ++ 0 :: r) = x := by
  rw [cstr_append_zero, cstr_of_noNul hx]

theorem not_mem_cstr (l : List UInt8) : 0 ∉ cstr l := by
  induction l with
  | nil => exact List.not_mem_nil
  | cons b l ih =>
    rw [cstr_cons]
    split
    · exact List.not_mem_nil
    · next hb => simp [ih, Ne.symm hb]

theorem cutAt_eq_some (hc : c ≠ 0) :
    cutAt c l = some (x, r) ↔ l = x ++ c :: r ∧ c ∉ x ∧ 0 ∉ x := by
  induction l generalizing x with
  | nil => simp [cutAt]
  | cons b l ih =>
    rw [cutAt]
    split
    · next hbc =>
      subst hbc
      constructor
      · rintro h
        obtain ⟨rfl, rfl⟩ : [] = x ∧ l = r := by simpa using h
        simp
      · rintro ⟨hl, hcx, -⟩
        cases x with
        | nil => simpa using hl
        | cons a x => simp_all
    · next hbc =>
      split
      · next hb0 =>
        subst hb0
        cases x with
        | nil => simp [hbc]
        | cons a x =>
          have ha : (0 : UInt8) = a → 0 ∈ a :: x := fun h => h ▸ List.mem_cons_self ..
          constructor
          · intro h
            exact absurd h (by simp)
          · rintro ⟨hl, -, h0⟩
            exact absurd (ha (List.cons.inj hl).1) h0
      · next hb0 =>
        cases x with
        | nil => simp [hbc]
        | cons a x =>
          simp only [Option.map_eq_some_iff, Prod.exists, Prod.mk.injEq, List.cons.injEq,
            List.cons_append, List.mem_cons, not_or]
          constructor
          · rintro ⟨x', r', h, ⟨rfl, rfl⟩, rfl⟩
            obtain ⟨rfl, hcx, h0x⟩ := ih.mp h
            exact ⟨⟨rfl, rfl⟩, ⟨Ne.symm hbc, hcx⟩, Ne.symm hb0, h0x⟩
          · rintro ⟨⟨rfl, rfl⟩, ⟨-, hcx⟩, -, h0x⟩
            exact ⟨x, r, ih.mpr ⟨rfl, hcx, h0x⟩, ⟨rfl, rfl⟩, rfl⟩

/-- Without a separator the text goes on up to its NUL or its end. -/
theorem cutAt_eq_none (hc : c ≠ 0) :
    cutAt c l = none ↔ c ∉ cstr l := by
  induction l with
  | nil => simp [cutAt, cstr]
  | cons b l ih =>
    rw [cutAt]
    by_cases hb0 : b = 0
    · simp [hb0, cstr_cons, hc.symm]
    · by_cases hbc : b = c
      · simp [hbc, cstr_cons, hc]
      · simp [hbc, hb0, Ne.symm hbc, cstr_cons, ih]

/-- What follows the NUL does not matter. -/
theorem cutAt_append_zero (hc : c ≠ 0) (l z : List UInt8) :
    cutAt c (l ++ 0 :: z) = (cutAt c l).map fun (x, r) => (x, r ++ 0 :: z) := by
  induction l with
  | nil => simp [cutAt, hc.symm]
  | cons b l ih =>
    rw [List.cons_append, cutAt, cutAt]
    split
    · rfl
    · split
      · rfl
      · rw [ih, Option.map_map, Option.map_map]
        rfl

end Lists

-- ════════════════════════════════════════════════════════════════════════
-- Accesses where a buffer is split
-- ════════════════════════════════════════════════════════════════════════

section Split

variable {s a r x y : List UInt8} {b c : UInt8} {i : Nat} {p : UInt8 → Bool}

@[simp] theorem ok_bind {α β : Type} (v : α) (f : α → Except Fault β) :
    (Except.ok v >>= f) = f v := rfl

@[simp] theorem error_bind {α β : Type} (e : Fault) (f : α → Except Fault β) :
    (Except.error e >>= f) = .error e := rfl

theorem bind_eq_ok {α β : Type} {x : Except Fault α} {f : α → Except Fault β} {b : β} :
    (x >>= f) = .ok b ↔ ∃ a, x = .ok a ∧ f a = .ok b := by
  cases x with
  | error e => simp
  | ok a => simp

theorem load_eq_ok (h : load s i = .ok b) : s[i]? = some b := by
  rw [load] at h
  split at h
  · next c hc =>
    obtain rfl := Except.ok.inj h
    exact hc
  · exact absurd h (by simp)

theorem store_eq_ok {s' : List UInt8} (h : store s i b = .ok s') : s' = s.set i b := by
  rw [store] at h
  split at h
  · exact (Except.ok.inj h).symm
  · exact absurd h (by simp)

/-- The pointer behind a byte. -/
theorem length_next (hi : i = a.length) (b : UInt8) : i + 1 = (a ++ [b]).length := by
  rw [hi, List.length_append, List.length_singleton]

theorem load_at (hs : s = a ++ b :: r) (hi : i = a.length) : load s i = .ok b := by
  subst hs hi
  simp [load]

theorem store_at (hs : s = a ++ b :: r) (hi : i = a.length) (c : UInt8) :
    store s i c = .ok (a ++ c :: r) := by
  subst hs hi
  simp [store]

theorem find_at (hs : s = a ++ (x ++ b :: r)) (hi : i = a.length) (hx : ∀ y ∈ x, p y = false)
    (hb : p b = true) : find s p i = .ok (i + x.length) := by
  subst hs hi
  have hidx : (x ++ b :: r).findIdx? p = some x.length := by
    induction x with
    | nil => rw [List.nil_append, List.findIdx?_cons, hb]; rfl
    | cons y x ih =>
      have hy := hx y (List.mem_cons_self ..)
      rw [List.cons_append, List.findIdx?_cons, hy]
      simp [ih fun z hz => hx z (List.mem_cons_of_mem _ hz)]
  rw [find, List.drop_left, hidx]

theorem find_none (hs : s = a ++ x) (hi : i = a.length) (hx : ∀ y ∈ x, p y = false) :
    find s p i = .error .bounds := by
  subst hs hi
  have hidx : x.findIdx? p = none := List.findIdx?_eq_none_iff.mpr hx
  rw [find, List.drop_left, hidx]

theorem stopAt_false (hx0 : 0 ∉ x) (hxc : c ∉ x) : ∀ y ∈ x, stopAt c y = false := by
  intro y hy
  have h0 : y ≠ 0 := fun h => hx0 (h ▸ hy)
  have hc : y ≠ c := fun h => hxc (h ▸ hy)
  simp [stopAt, h0, hc]

/-- A loop up to a separator. -/
theorem find_cutAt (hs : s = a ++ x) (hi : i = a.length) (hc : c ≠ 0)
    (hcut : cutAt c x = some (y, r)) : find s (stopAt c) i = .ok (i + y.length) := by
  obtain ⟨rfl, hcy, h0y⟩ := (cutAt_eq_some hc).mp hcut
  exact find_at hs hi (stopAt_false h0y hcy) (by simp [stopAt])

/-- A loop up to the NUL, because there is no separator before it. -/
theorem find_cutAt_none (hs : s = a ++ x) (hi : i = a.length) (hc : c ≠ 0)
    (hcut : cutAt c x = none) (h : 0 ∈ x) :
    find s (stopAt c) i = .ok (i + (cstr x).length) ∧ ∃ r, x = cstr x ++ 0 :: r := by
  have hcx := (cutAt_eq_none hc).mp hcut
  obtain ⟨y, z, rfl, hy⟩ := List.eq_append_cons_of_mem h
  rw [cstr_append hy] at hcx ⊢
  exact ⟨find_at hs hi (stopAt_false hy hcx) (by simp [stopAt]), z, rfl⟩

theorem skipTo_at (hs : s = a ++ b :: r) (hi : i = a.length) (hb : b ≠ 0) :
    skipTo c s i = find s (stopAt c) (i + 1) := by
  simp [skipTo, load_at hs hi, hb]

theorem find_nul (hs : s = a ++ (x ++ 0 :: r)) (hi : i = a.length) (hx : 0 ∉ x) :
    find s (· = 0) i = .ok (i + x.length) :=
  find_at hs hi (fun _ hy => decide_eq_false fun h => hx (h ▸ hy)) rfl

/-- A string that a NUL ends. -/
theorem str_at (hs : s = a ++ x) (hi : i = a.length) (h : 0 ∈ x) : str s i = .ok (cstr x) := by
  obtain ⟨y, z, rfl, hy⟩ := List.eq_append_cons_of_mem h
  subst hs hi
  rw [str, find_nul rfl rfl hy, cstr_append hy]
  simp [Bytes.window, pure, Except.pure]

theorem str_text (hs : s = a ++ (x ++ 0 :: r)) (hi : i = a.length) (hx : 0 ∉ x) :
    str s i = .ok x := by
  rw [str_at hs hi (List.mem_append_right _ (List.mem_cons_self ..)), cstr_append hx]

/-- A pointer to a NUL is the empty string. -/
theorem str_of_load (h : load s i = .ok 0) : str s i = .ok [] := by
  have hget : s[i]? = some 0 := load_eq_ok h
  obtain ⟨hlt, hzero⟩ := List.getElem?_eq_some_iff.mp hget
  have hs : s = s.take i ++ 0 :: s.drop (i + 1) := by
    conv_lhs => rw [← List.take_append_drop i s, List.drop_eq_getElem_cons hlt, hzero]
  exact str_at hs (by rw [List.length_take]; omega) (List.mem_cons_self ..)

/-- A loop does not get past a byte that it looks for. -/
theorem find_le {k e : Nat} (h : find s p i = .ok e) (hik : i ≤ k) (hk : s[k]? = some b)
    (hb : p b = true) : e ≤ k := by
  rw [find] at h
  split at h
  · next m hm =>
    obtain rfl := Except.ok.inj h
    obtain ⟨hlt, -, hbefore⟩ := List.findIdx?_eq_some_iff_getElem.mp hm
    by_contra hlater
    obtain ⟨hk', hget⟩ := List.getElem?_eq_some_iff.mp hk
    have hnot := hbefore (k - i) (by omega)
    simp only [List.getElem_drop, Nat.add_sub_cancel' hik, hget, hb] at hnot
    exact absurd hnot (by decide)
  · exact absurd h (by simp)

/-- A string that ends within the first `n` bytes does not depend on the others. -/
theorem str_take {s' : List UInt8} {e n : Nat} (h : str s i = .ok x) (hie : i ≤ e)
    (he : s[e]? = some 0) (hen : e < n) (hsame : s'.take n = s.take n) : str s' i = .ok x := by
  have hsplit : ∀ t : List UInt8, t.take n = s.take n →
      str t i = .ok (cstr ((s.take n).drop i)) := by
    intro t ht
    have hlt : e < t.length := by
      have hlen := congrArg List.length ht
      have hlt := (List.getElem?_eq_some_iff.mp he).1
      rw [List.length_take, List.length_take] at hlen
      omega
    have hnul : 0 ∈ (s.take n).drop i := by
      have hget : ((s.take n).drop i)[e - i]? = some 0 := by
        rw [List.getElem?_drop, Nat.add_sub_cancel' hie, List.getElem?_take_of_lt hen, he]
      exact List.mem_of_getElem? hget
    obtain ⟨y, z, hyz, hy⟩ := List.eq_append_cons_of_mem hnul
    have hdrop : t.drop i = (s.take n).drop i ++ t.drop n := by
      conv_lhs => rw [← List.take_append_drop n t, ht, List.drop_append_of_le_length (by
        rw [← ht, List.length_take]; omega)]
    rw [str_at (List.take_append_drop i t).symm (by rw [List.length_take]; omega)
      (hdrop ▸ List.mem_append_left _ hnul), hdrop, hyz, List.append_assoc, List.cons_append,
      cstr_append_zero, cstr_append_zero]
  rw [hsplit s' hsame, ← hsplit s rfl, h]

end Split

-- ════════════════════════════════════════════════════════════════════════
-- What comes to an end
-- ════════════════════════════════════════════════════════════════════════

section Ends

variable {α β : Type} {x : Except Fault α} {f : α → Except Fault β}

theorem bind_ne_endless (hx : x ≠ .error .endless)
    (hf : ∀ a, x = .ok a → f a ≠ .error .endless) : (x >>= f) ≠ .error .endless := by
  cases x with
  | error e => exact fun h => hx (congrArg _ (Except.error.inj h))
  | ok a => exact hf a rfl

theorem load_ne_endless {s : List UInt8} {i : Nat} : load s i ≠ .error .endless := by
  rw [load]
  split
  · simp
  · simp

theorem store_ne_endless {s : List UInt8} {i : Nat} {b : UInt8} : store s i b ≠ .error .endless := by
  rw [store]
  split
  · simp
  · simp

theorem find_ne_endless {s : List UInt8} {p : UInt8 → Bool} {i : Nat} :
    find s p i ≠ .error .endless := by
  rw [find]
  split
  · simp
  · simp

theorem str_ne_endless {s : List UInt8} {i : Nat} : str s i ≠ .error .endless :=
  bind_ne_endless find_ne_endless fun _ _ h => absurd h (by simp [pure, Except.pure])

theorem deref_ne_endless {p : Option α} : deref p ≠ .error .endless := by
  cases p with
  | none => simp [deref]
  | some a => simp [deref]

end Ends

end CString
