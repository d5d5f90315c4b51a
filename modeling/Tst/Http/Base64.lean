import Tst.Lib.CString

/-!
# Base64

`base64_encode()` takes three bytes at a time and writes four characters for them, and
`base64_decode()` takes them back. Both count with `int`; `dst_len` is a `size_t`.

## Main definitions

- `base64Encode`, `base64Decode` — the functions
- `chars` — the characters for a text, without the padding

## Main results

- `base64_round_trip` — what has been encoded is decoded to what it was
-/

namespace Tst

open CString

/-- `b64`. -/
def b64 : List UInt8 :=
  [65, 66, 67, 68, 69, 70, 71, 72, 73, 74, 75, 76, 77, 78, 79, 80, 81, 82, 83, 84, 85, 86, 87, 88,
    89, 90, 97, 98, 99, 100, 101, 102, 103, 104, 105, 106, 107, 108, 109, 110, 111, 112, 113, 114,
    115, 116, 117, 118, 119, 120, 121, 122, 48, 49, 50, 51, 52, 53, 54, 55, 56, 57, 43, 47]

/-- `i + k` for an `int`. -/
def addInt (i k : Nat) : Except Fault Nat := if i + k < 2 ^ 31 then .ok (i + k) else .error .bounds

/-- `dst[j++] = b`. -/
def putByte (dst : List UInt8) (j : Nat) (b : UInt8) : Except Fault (List UInt8 × Nat) := do
  return (← store dst j b, ← addInt j 1)

/-- `dst[j++] = b64[k]`. -/
def putSymbol (dst : List UInt8) (j k : Nat) : Except Fault (List UInt8 × Nat) := do
  putByte dst j (← load b64 k)

/-- `(i >= src_len) ? 0 : src[i]`. -/
def byteAt (src : List UInt8) (srcLen i : Nat) : Except Fault UInt8 :=
  if i ≥ srcLen then .ok 0 else load src i

/-- The loop of `base64_encode()`. -/
def base64EncodeLoop (src : List UInt8) (srcLen : Nat) :
    Nat → Nat → Nat → List UInt8 → Except Fault (List UInt8 × Nat)
  | 0, _, _, _ => .error .endless
  | fuel + 1, i, j, dst =>
    if i < srcLen then do
      let a ← load src i
      let b ← byteAt src srcLen (i + 1)
      let c ← byteAt src srcLen (i + 2)
      let (dst, j) ← putSymbol dst j (a.toNat >>> 2)
      let (dst, j) ← putSymbol dst j (((a.toNat &&& 3) <<< 4) ||| (b.toNat >>> 4))
      let third := ((b.toNat &&& 15) <<< 2) ||| (c.toNat >>> 6)
      let (dst, j) ← (if i + 1 < srcLen then putSymbol dst j third else .ok (dst, j))
      let (dst, j) ← (if i + 2 < srcLen then putSymbol dst j (c.toNat &&& 63) else .ok (dst, j))
      base64EncodeLoop src srcLen fuel (← addInt i 3) j dst
    else .ok (dst, j)

/-- `while (j % 4 != 0) dst[j++] = '=';`. -/
def padLoop : Nat → Nat → List UInt8 → Except Fault (List UInt8 × Nat)
  | 0, _, _ => .error .endless
  | fuel + 1, j, dst =>
    if j % 4 ≠ 0 then do
      let (dst, j) ← putByte dst j 61
      padLoop fuel j dst
    else return (dst, j)

/-- `base64_encode()`: what it leaves in `dst`. -/
def base64Encode (src : List UInt8) (srcLen : Nat) (dst : List UInt8) :
    Except Fault (List UInt8) := do
  let (dst, j) ← base64EncodeLoop src srcLen (srcLen + 1) 0 0 dst
  let (dst, j) ← padLoop 4 j dst
  return (← putByte dst j 0).1

/-- `b64reverse()`. -/
def b64reverse (letter : UInt8) : UInt8 :=
  if 65 ≤ letter ∧ letter ≤ 90 then letter - 65
  else if 97 ≤ letter ∧ letter ≤ 122 then letter - 97 + 26
  else if 48 ≤ letter ∧ letter ≤ 57 then letter - 48 + 52
  else if letter = 43 then 62
  else if letter = 47 then 63
  else if letter = 61 then 255
  else 254

/-- `b64reverse((i >= src_len) ? 0 : src[i])`. -/
def letterAt (src : List UInt8) (srcLen i : Nat) : Except Fault UInt8 := do
  return b64reverse (← byteAt src srcLen i)

/-- What `base64_decode()` returns, and what it leaves in `dst` and `*dst_len`. -/
structure Decoded where
  result : Int
  dst : List UInt8
  dstLen : Nat
  deriving DecidableEq

/-- The bytes for four letters that are no errors. -/
def decodeBlock (a b c d : UInt8) : List UInt8 :=
  UInt8.ofNat ((a.toNat <<< 2) + (b.toNat >>> 4)) ::
    if c ≠ 255 then
      UInt8.ofNat ((b.toNat <<< 4) + (c.toNat >>> 2)) ::
        if d ≠ 255 then [UInt8.ofNat ((c.toNat <<< 6) + d.toNat)] else []
    else []

/-- `dst[(*dst_len)++] = b` for each of the bytes. -/
def appendBytes (dst : List UInt8) (dstLen : Nat) : List UInt8 → Except Fault (List UInt8 × Nat)
  | [] => return (dst, dstLen)
  | b :: bs => do appendBytes (← store dst dstLen b) (dstLen + 1) bs

/-- The loop of `base64_decode()`. -/
def base64DecodeLoop (src : List UInt8) (srcLen : Nat) :
    Nat → Nat → List UInt8 → Nat → Except Fault Decoded
  | 0, _, _, _ => .error .endless
  | fuel + 1, i, dst, dstLen =>
    if i < srcLen then do
      let a := b64reverse (← load src i)
      if a ≥ 254 then return ⟨i, dst, dstLen⟩
      let b ← letterAt src srcLen (i + 1)
      if b ≥ 254 then return ⟨i + 1, dst, dstLen⟩
      let c ← letterAt src srcLen (i + 2)
      if c = 254 then return ⟨i + 2, dst, dstLen⟩
      let d ← letterAt src srcLen (i + 3)
      if d = 254 then return ⟨i + 3, dst, dstLen⟩
      let (dst, dstLen) ← appendBytes dst dstLen (decodeBlock a b c d)
      base64DecodeLoop src srcLen fuel (← addInt i 4) dst dstLen
    else return ⟨-1, dst, dstLen⟩

/-- `base64_decode()`. -/
def base64Decode (src : List UInt8) (srcLen : Nat) (dst : List UInt8) : Except Fault Decoded :=
  base64DecodeLoop src srcLen (srcLen + 1) 0 dst 0

/-- The character for six bits. -/
def symbol (k : Nat) : UInt8 := b64.getD k 0

/-- The characters for a text, without the padding. -/
def chars : List UInt8 → List UInt8
  | a :: b :: c :: r =>
    symbol (a.toNat / 4) :: symbol (a.toNat % 4 * 16 + b.toNat / 16) ::
      symbol (b.toNat % 16 * 4 + c.toNat / 64) :: symbol (c.toNat % 64) :: chars r
  | [a, b] =>
    [symbol (a.toNat / 4), symbol (a.toNat % 4 * 16 + b.toNat / 16), symbol (b.toNat % 16 * 4)]
  | [a] => [symbol (a.toNat / 4), symbol (a.toNat % 4 * 16)]
  | [] => []

/-- The number of characters for `n` bytes, with the padding. -/
def base64Length (n : Nat) : Nat := 4 * ((n + 2) / 3)

/-- The number of `=` behind them. -/
def padding (n : Nat) : Nat := (3 - n % 3) % 3

-- ════════════════════════════════════════════════════════════════════════
-- Six bits and their character
-- ════════════════════════════════════════════════════════════════════════

section Symbols

variable {k : Nat} {x y : UInt8}

theorem load_b64 (hk : k < 64) : load b64 k = .ok (symbol k) := by
  have hlt : k < b64.length := hk
  rw [load, symbol, List.getD_eq_getElem?_getD, List.getElem?_eq_getElem hlt]
  rfl

theorem symbol_mem (hk : k < 64) : symbol k ∈ b64 :=
  List.mem_of_getElem? (load_eq_ok (load_b64 hk))

/-- `b64reverse` inverts the table. -/
theorem b64reverse_symbol (hk : k < 64) : b64reverse (symbol k) = UInt8.ofNat k := by
  have hall : ∀ k : Fin 64, b64reverse (symbol k) = UInt8.ofNat k := by decide
  exact hall ⟨k, hk⟩

/-- The lower bits of a byte, and the upper ones of the next. -/
theorem bits_or (x y : UInt8) (l : Nat) {n m : Nat} (hnm : n + m = 8) :
    ((x.toNat &&& (2 ^ l - 1)) <<< n) ||| (y.toNat >>> m) =
      x.toNat % 2 ^ l * 2 ^ n + y.toNat / 2 ^ m := by
  have hy : y.toNat / 2 ^ m < 2 ^ n := by
    rw [Nat.div_lt_iff_lt_mul (Nat.two_pow_pos m), ← Nat.pow_add, hnm]
    exact y.toNat_lt
  rw [Nat.and_two_pow_sub_one_eq_mod, Nat.shiftRight_eq_div_pow, ← Nat.shiftLeft_add_eq_or_of_lt hy,
    Nat.shiftLeft_eq]

end Symbols

-- ════════════════════════════════════════════════════════════════════════
-- The encoder
-- ════════════════════════════════════════════════════════════════════════

section Encode

variable {done gap pre rest : List UInt8} {fuel i : Nat}

theorem addInt_ok {k : Nat} (h : i + k < 2 ^ 31) : addInt i k = .ok (i + k) := if_pos h

/-- A byte is written behind those that are there. -/
theorem put_append (b : UInt8) (hgap : 0 < gap.length) (hint : done.length + 1 < 2 ^ 31) :
    putByte (done ++ gap) done.length b = .ok (done ++ [b] ++ gap.drop 1, (done ++ [b]).length) := by
  obtain ⟨g, gap, rfl⟩ := List.exists_cons_of_length_pos hgap
  rw [putByte, store_at rfl rfl, ok_bind, addInt_ok hint]
  simp

theorem putSymbol_append {k : Nat} (hk : k < 64) (hgap : 0 < gap.length)
    (hint : done.length + 1 < 2 ^ 31) :
    putSymbol (done ++ gap) done.length k =
      .ok (done ++ [symbol k] ++ gap.drop 1, (done ++ [symbol k]).length) := by
  rw [putSymbol, load_b64 hk, ok_bind, put_append _ hgap hint]

theorem byteAt_append (pre : List UInt8) (b : UInt8) (rest : List UInt8) (hi : i = pre.length) :
    byteAt (pre ++ b :: rest) (pre ++ b :: rest).length i = .ok b := by
  have hlt : i < (pre ++ b :: rest).length := by
    rw [hi, List.length_append, List.length_cons]
    omega
  rw [byteAt, if_neg (by omega), load_at rfl hi]

theorem byteAt_end {src : List UInt8} (hi : src.length ≤ i) : byteAt src src.length i = .ok 0 :=
  if_pos hi

/-- The bits of the four characters are a table's index. -/
theorem bits_lt (x y z : UInt8) : x.toNat / 4 < 64 ∧ x.toNat % 4 * 16 + y.toNat / 16 < 64 ∧
    y.toNat % 16 * 4 + z.toNat / 64 < 64 ∧ z.toNat % 64 < 64 := by
  have hx := x.toNat_lt
  have hy := y.toNat_lt
  have hz := z.toNat_lt
  refine ⟨?_, ?_, ?_, ?_⟩
  all_goals omega

/-- The first two characters for the bytes that begin at `i`. -/
theorem base64EncodeLoop_two {src : List UInt8} {a b c : UInt8} (hi : i < src.length)
    (ha : load src i = .ok a) (hb : byteAt src src.length (i + 1) = .ok b)
    (hc : byteAt src src.length (i + 2) = .ok c) (hgap : 2 ≤ gap.length)
    (hint : done.length + 2 < 2 ^ 31) :
    base64EncodeLoop src src.length (fuel + 1) i done.length (done ++ gap) = (do
      let done₂ := done ++ [symbol (a.toNat / 4)] ++ [symbol (a.toNat % 4 * 16 + b.toNat / 16)]
      let (dst, j) ← (if i + 1 < src.length then
          putSymbol (done₂ ++ gap.drop 2) done₂.length (b.toNat % 16 * 4 + c.toNat / 64)
        else .ok (done₂ ++ gap.drop 2, done₂.length))
      let (dst, j) ← (if i + 2 < src.length then putSymbol dst j (c.toNat % 64) else .ok (dst, j))
      base64EncodeLoop src src.length fuel (← addInt i 3) j dst) := by
  obtain ⟨h₁, h₂, -, -⟩ := bits_lt a b c
  have hfirst : a.toNat >>> 2 = a.toNat / 4 := Nat.shiftRight_eq_div_pow _ 2
  have hsecond : ((a.toNat &&& 3) <<< 4) ||| (b.toNat >>> 4) = a.toNat % 4 * 16 + b.toNat / 16 :=
    bits_or a b 2 rfl
  have hthird : ((b.toNat &&& 15) <<< 2) ||| (c.toNat >>> 6) = b.toNat % 16 * 4 + c.toNat / 64 :=
    bits_or b c 4 rfl
  have hfourth : c.toNat &&& 63 = c.toNat % 64 := Nat.and_two_pow_sub_one_eq_mod c.toNat 6
  have hlen : (done ++ [symbol (a.toNat / 4)]).length = done.length + 1 := List.length_append
  rw [base64EncodeLoop, if_pos hi, ha, ok_bind, hb, ok_bind, hc, ok_bind, hfirst, hsecond, hthird,
    hfourth, putSymbol_append h₁ (by omega) (by omega), ok_bind]
  dsimp only
  rw [putSymbol_append h₂ (by rw [List.length_drop]; omega) (by omega), ok_bind, List.drop_drop]

/-- The characters that the loop writes. -/
theorem base64EncodeLoop_chars (hfuel : rest.length < fuel)
    (hsrc : (pre ++ rest).length + 2 < 2 ^ 31) (hgap : (chars rest).length ≤ gap.length)
    (hint : done.length + (chars rest).length < 2 ^ 31) :
    base64EncodeLoop (pre ++ rest) (pre ++ rest).length fuel pre.length done.length (done ++ gap) =
      .ok (done ++ chars rest ++ gap.drop (chars rest).length, (done ++ chars rest).length) := by
  induction rest using chars.induct generalizing pre done gap fuel with
  | case1 a b c r ih =>
    obtain ⟨fuel, rfl⟩ := Nat.exists_eq_succ_of_ne_zero (Nat.ne_zero_of_lt hfuel)
    obtain ⟨-, -, h₃, h₄⟩ := bits_lt a b c
    have hlen : (pre ++ a :: b :: c :: r).length = pre.length + (r.length + 3) := List.length_append
    have hchars : (chars (a :: b :: c :: r)).length = (chars r).length + 4 := rfl
    have hsplit : pre ++ a :: b :: c :: r = pre ++ [a, b, c] ++ r := by simp
    have hb : byteAt (pre ++ a :: b :: c :: r) (pre ++ a :: b :: c :: r).length (pre.length + 1) =
        .ok b := by
      have h := byteAt_append (pre ++ [a]) b (c :: r) rfl
      simpa using h
    have hc : byteAt (pre ++ a :: b :: c :: r) (pre ++ a :: b :: c :: r).length (pre.length + 2) =
        .ok c := by
      have h := byteAt_append (pre ++ [a, b]) c r rfl
      simpa using h
    rw [base64EncodeLoop_two (by omega) (load_at rfl rfl) hb hc (by omega) (by omega)]
    dsimp only
    rw [if_pos (by omega), putSymbol_append h₃ (by simp; omega) (by simp; omega), ok_bind]
    dsimp only
    rw [if_pos (by omega), putSymbol_append h₄ (by simp; omega) (by simp; omega), ok_bind]
    dsimp only
    rw [addInt_ok (by omega), ok_bind, hsplit]
    have hrest := @ih (done ++ [symbol (a.toNat / 4)] ++
        [symbol (a.toNat % 4 * 16 + b.toNat / 16)] ++ [symbol (b.toNat % 16 * 4 + c.toNat / 64)] ++
        [symbol (c.toNat % 64)]) (gap.drop 4) (pre ++ [a, b, c]) fuel
      (by simp at hfuel; omega) (by rw [← hsplit]; omega) (by simp; omega) (by simp; omega)
    have hpos : pre.length + 3 = (pre ++ [a, b, c]).length := by simp
    rw [hpos, List.drop_drop, List.drop_drop, hrest, List.drop_drop, hchars, Nat.add_comm 4]
    simp [chars]
  | case2 a b =>
    obtain ⟨fuel, rfl⟩ : ∃ k, fuel = k + 1 + 1 := ⟨fuel - 2, by simp at hfuel; omega⟩
    obtain ⟨-, -, h₃, -⟩ := bits_lt a b 0
    have hlen : (pre ++ [a, b]).length = pre.length + 2 := List.length_append
    have hchars : (chars [a, b]).length = 3 := rfl
    have hb : byteAt (pre ++ [a, b]) (pre ++ [a, b]).length (pre.length + 1) = .ok b := by
      have h := byteAt_append (pre ++ [a]) b [] rfl
      simpa using h
    rw [base64EncodeLoop_two (by omega) (load_at rfl rfl) hb (byteAt_end (by omega)) (by omega)
      (by omega)]
    dsimp only
    rw [if_pos (by omega), putSymbol_append h₃ (by simp; omega) (by simp; omega), ok_bind]
    dsimp only
    rw [if_neg (by omega), ok_bind]
    dsimp only
    rw [addInt_ok (by omega), ok_bind, base64EncodeLoop, if_neg (by omega), List.drop_drop]
    simp [chars]
  | case3 a =>
    obtain ⟨fuel, rfl⟩ : ∃ k, fuel = k + 1 + 1 := ⟨fuel - 2, by simp at hfuel; omega⟩
    have hlen : (pre ++ [a]).length = pre.length + 1 := List.length_append
    have hchars : (chars [a]).length = 2 := rfl
    rw [base64EncodeLoop_two (by omega) (load_at rfl rfl) (byteAt_end (by omega))
      (byteAt_end (by omega)) (by omega) (by omega)]
    dsimp only
    rw [if_neg (by omega), ok_bind]
    dsimp only
    rw [if_neg (by omega), ok_bind]
    dsimp only
    rw [addInt_ok (by omega), ok_bind, base64EncodeLoop, if_neg (by omega)]
    simp [chars]
  | case4 =>
    obtain ⟨fuel, rfl⟩ := Nat.exists_eq_succ_of_ne_zero (Nat.ne_zero_of_lt hfuel)
    rw [List.append_nil, base64EncodeLoop, if_neg (Nat.lt_irrefl _)]
    simp [chars]

/-- The padding. -/
theorem padLoop_append (k : Nat) (hk : k < fuel) (hdone : (done.length + k) % 4 = 0) (hlt : k < 4)
    (hgap : k ≤ gap.length) (hint : done.length + k < 2 ^ 31) :
    padLoop fuel done.length (done ++ gap) =
      .ok (done ++ List.replicate k 61 ++ gap.drop k, (done ++ List.replicate k 61).length) := by
  induction k generalizing done gap fuel with
  | zero =>
    obtain ⟨fuel, rfl⟩ := Nat.exists_eq_succ_of_ne_zero (Nat.ne_zero_of_lt hk)
    rw [padLoop, if_neg (by omega)]
    simp [pure, Except.pure]
  | succ k ih =>
    obtain ⟨fuel, rfl⟩ := Nat.exists_eq_succ_of_ne_zero (Nat.ne_zero_of_lt hk)
    have hrest := @ih (done ++ [61]) (gap.drop 1) fuel (by omega)
      (by simp; omega) (by omega) (by simp; omega) (by simp; omega)
    rw [padLoop, if_pos (by omega), put_append 61 (by omega) (by omega), ok_bind]
    dsimp only
    rw [hrest, List.drop_drop]
    simp [List.replicate_succ, Nat.add_comm]

theorem length_chars (src : List UInt8) :
    (chars src).length + padding src.length = base64Length src.length := by
  induction src using chars.induct with
  | case1 a b c r ih =>
    simp only [chars, List.length_cons, padding, base64Length] at ih ⊢
    omega
  | case2 a b => simp [chars, padding, base64Length]
  | case3 a => simp [chars, padding, base64Length]
  | case4 => rfl

/-- The characters are those of the table. -/
theorem chars_mem (src : List UInt8) : ∀ ch ∈ chars src, ch ∈ b64 := by
  induction src using chars.induct with
  | case1 a b c r ih =>
    obtain ⟨h₁, h₂, h₃, h₄⟩ := bits_lt a b c
    simpa only [chars, List.forall_mem_cons] using
      ⟨symbol_mem h₁, symbol_mem h₂, symbol_mem h₃, symbol_mem h₄, ih⟩
  | case2 a b =>
    obtain ⟨h₁, h₂, h₃, -⟩ := bits_lt a b 0
    simpa only [chars, List.forall_mem_cons] using
      ⟨symbol_mem h₁, symbol_mem h₂, symbol_mem h₃, List.forall_mem_nil _⟩
  | case3 a =>
    obtain ⟨h₁, h₂, -, -⟩ := bits_lt a 0 0
    simpa only [chars, List.forall_mem_cons] using
      ⟨symbol_mem h₁, symbol_mem h₂, List.forall_mem_nil _⟩
  | case4 => exact List.forall_mem_nil _

/-- What `base64_encode()` writes. -/
theorem base64Encode_eq {src dst : List UInt8} (hfits : base64Length src.length < 2 ^ 31)
    (hdst : base64Length src.length < dst.length) :
    base64Encode src src.length dst =
      .ok (chars src ++ List.replicate (padding src.length) 61 ++
        0 :: dst.drop (base64Length src.length + 1)) := by
  have hlen := length_chars src
  have hpad : padding src.length < 3 := Nat.mod_lt _ (by decide)
  have hfour : base64Length src.length % 4 = 0 := Nat.mul_mod_right ..
  have hsrc : src.length + 2 < 2 ^ 31 := by
    rw [base64Length] at hfits
    omega
  have hloop := @base64EncodeLoop_chars [] dst [] src _
    (Nat.lt_succ_self _) hsrc (by omega) (by simp; omega)
  have hpadded := @padLoop_append (chars src) (dst.drop (chars src).length) 4
    (padding src.length) (by omega) (by omega) (by omega) (by simp; omega) (by omega)
  have hnul := @put_append (chars src ++ List.replicate (padding src.length) 61)
    (dst.drop (base64Length src.length)) 0 (by simp; omega) (by simp; omega)
  simp only [List.nil_append] at hloop
  rw [List.drop_drop, hlen] at hpadded
  rw [base64Encode, show base64EncodeLoop src src.length (src.length + 1) 0 0 dst = _ from hloop,
    ok_bind]
  dsimp only
  rw [hpadded, ok_bind]
  dsimp only
  rw [hnul, ok_bind, List.drop_drop]
  simp [pure, Except.pure]

end Encode

-- ════════════════════════════════════════════════════════════════════════
-- The decoder
-- ════════════════════════════════════════════════════════════════════════

/-- The characters for a text. -/
def encoded (src : List UInt8) : List UInt8 :=
  chars src ++ List.replicate (padding src.length) 61

section Decode

variable {done gap pre rest src out : List UInt8} {fuel : Nat}

theorem append_done {bs : List UInt8} (hgap : bs.length ≤ gap.length) :
    appendBytes (done ++ gap) done.length bs =
      .ok (done ++ bs ++ gap.drop bs.length, (done ++ bs).length) := by
  induction bs generalizing done gap with
  | nil => simp [appendBytes, pure, Except.pure]
  | cons b bs ih =>
    obtain ⟨g, gap, rfl⟩ := List.exists_cons_of_length_pos (Nat.lt_of_lt_of_le (Nat.succ_pos _) hgap)
    have hrest := @ih (done ++ [b]) gap (Nat.le_of_succ_le_succ hgap)
    have hpos : (done ++ [b]).length = done.length + 1 := List.length_append
    rw [hpos, List.append_assoc, List.singleton_append] at hrest
    rw [appendBytes, store_at rfl rfl, ok_bind, hrest]
    simp

theorem letterAt_append (pre : List UInt8) (b : UInt8) (rest : List UInt8) :
    letterAt (pre ++ b :: rest) (pre ++ b :: rest).length pre.length = .ok (b64reverse b) := by
  rw [letterAt, byteAt_append pre b rest rfl, ok_bind]
  rfl

/-- Four letters, none of which is an error. -/
theorem base64DecodeLoop_block {x y z w : UInt8} (hsrc : src = pre ++ x :: y :: z :: w :: rest)
    (hx : b64reverse x < 254) (hy : b64reverse y < 254) (hz : b64reverse z ≠ 254)
    (hw : b64reverse w ≠ 254) (hint : src.length < 2 ^ 31) {bs : List UInt8}
    (hbs : decodeBlock (b64reverse x) (b64reverse y) (b64reverse z) (b64reverse w) = bs)
    (hgap : bs.length ≤ gap.length) :
    base64DecodeLoop src src.length (fuel + 1) pre.length (done ++ gap) done.length =
      base64DecodeLoop src src.length fuel (pre.length + 4) (done ++ bs ++ gap.drop bs.length)
        (done ++ bs).length := by
  have hlen : src.length = pre.length + (rest.length + 4) := by
    rw [hsrc]
    exact List.length_append
  have hload : load src pre.length = .ok x := load_at hsrc rfl
  have hletter : letterAt src src.length (pre.length + 1) = .ok (b64reverse y) ∧
      letterAt src src.length (pre.length + 2) = .ok (b64reverse z) ∧
      letterAt src src.length (pre.length + 3) = .ok (b64reverse w) := by
    have h₁ := letterAt_append (pre ++ [x]) y (z :: w :: rest)
    have h₂ := letterAt_append (pre ++ [x, y]) z (w :: rest)
    have h₃ := letterAt_append (pre ++ [x, y, z]) w rest
    simp only [List.append_assoc, List.cons_append, List.nil_append, ← hsrc] at h₁ h₂ h₃
    simp only [List.length_append, List.length_cons, List.length_nil] at h₁ h₂ h₃
    exact ⟨h₁, h₂, h₃⟩
  obtain ⟨h₁, h₂, h₃⟩ := hletter
  rw [base64DecodeLoop, if_pos (by omega), hload, ok_bind]
  dsimp only
  rw [if_neg (UInt8.not_le.mpr hx), h₁, ok_bind, if_neg (UInt8.not_le.mpr hy), h₂, ok_bind,
    if_neg hz, h₃, ok_bind, if_neg hw, hbs, append_done hgap, ok_bind]
  dsimp only
  rw [addInt_ok (by omega), ok_bind]

theorem b64reverse_lt {k : Nat} (hk : k < 64) : b64reverse (symbol k) < 254 := by
  rw [b64reverse_symbol hk, UInt8.lt_iff_toNat_lt, UInt8.toNat_ofNat', Nat.mod_eq_of_lt (by omega)]
  exact Nat.lt_trans hk (by decide)

/-- The letter that the padding stands for. -/
theorem b64reverse_pad : b64reverse 61 = 255 := rfl

/-- Six bits in a byte. -/
theorem toNat_ofNat_lt {k : Nat} (hk : k < 64) : (UInt8.ofNat k).toNat = k := by
  rw [UInt8.toNat_ofNat', Nat.mod_eq_of_lt (Nat.lt_trans hk (by decide))]

theorem ofNat_ne_pad {k : Nat} (hk : k < 64) : UInt8.ofNat k ≠ 255 := by
  intro heq
  have h := toNat_ofNat_lt hk
  rw [heq] at h
  have hmax : (255 : UInt8).toNat = 255 := rfl
  omega

/-- The first byte, from two letters. -/
theorem first_byte (a b : UInt8) :
    UInt8.ofNat ((UInt8.ofNat (a.toNat / 4)).toNat <<< 2 +
      (UInt8.ofNat (a.toNat % 4 * 16 + b.toNat / 16)).toNat >>> 4) = a := by
  obtain ⟨h₁, h₂, -, -⟩ := bits_lt a b 0
  have hb := b.toNat_lt
  rw [toNat_ofNat_lt h₁, toNat_ofNat_lt h₂, Nat.shiftLeft_eq, Nat.shiftRight_eq_div_pow]
  apply UInt8.toNat_inj.mp
  rw [UInt8.toNat_ofNat', Nat.mod_eq_of_lt (by omega)]
  omega

/-- The second: what has been shifted out of the first letter is cut off. -/
theorem second_byte (a b c : UInt8) :
    UInt8.ofNat ((UInt8.ofNat (a.toNat % 4 * 16 + b.toNat / 16)).toNat <<< 4 +
      (UInt8.ofNat (b.toNat % 16 * 4 + c.toNat / 64)).toNat >>> 2) = b := by
  obtain ⟨-, h₂, h₃, -⟩ := bits_lt a b c
  have hb := b.toNat_lt
  have hc := c.toNat_lt
  rw [toNat_ofNat_lt h₂, toNat_ofNat_lt h₃, Nat.shiftLeft_eq, Nat.shiftRight_eq_div_pow]
  apply UInt8.toNat_inj.mp
  rw [UInt8.toNat_ofNat']
  omega

/-- The third. -/
theorem third_byte (b c : UInt8) :
    UInt8.ofNat ((UInt8.ofNat (b.toNat % 16 * 4 + c.toNat / 64)).toNat <<< 6 +
      (UInt8.ofNat (c.toNat % 64)).toNat) = c := by
  obtain ⟨-, -, h₃, h₄⟩ := bits_lt 0 b c
  have hc := c.toNat_lt
  rw [toNat_ofNat_lt h₃, toNat_ofNat_lt h₄, Nat.shiftLeft_eq]
  apply UInt8.toNat_inj.mp
  rw [UInt8.toNat_ofNat']
  omega

/-- The letters stand for the bytes that have been encoded. -/
theorem decodeBlock_symbols (a b c : UInt8) :
    decodeBlock (UInt8.ofNat (a.toNat / 4)) (UInt8.ofNat (a.toNat % 4 * 16 + b.toNat / 16))
        (UInt8.ofNat (b.toNat % 16 * 4 + c.toNat / 64)) (UInt8.ofNat (c.toNat % 64)) = [a, b, c] := by
  obtain ⟨-, -, h₃, h₄⟩ := bits_lt a b c
  rw [decodeBlock, if_pos (ofNat_ne_pad h₃), if_pos (ofNat_ne_pad h₄), first_byte, second_byte,
    third_byte]

/-- The last two bytes, from three letters and a `=`. -/
theorem decodeBlock_two (a b : UInt8) :
    decodeBlock (UInt8.ofNat (a.toNat / 4)) (UInt8.ofNat (a.toNat % 4 * 16 + b.toNat / 16))
        (UInt8.ofNat (b.toNat % 16 * 4)) 255 = [a, b] := by
  have hthird : b.toNat % 16 * 4 + (0 : UInt8).toNat / 64 = b.toNat % 16 * 4 := rfl
  obtain ⟨-, -, h₃, -⟩ := bits_lt a b 0
  have hsecond := second_byte a b 0
  rw [hthird] at h₃ hsecond
  rw [decodeBlock, if_pos (ofNat_ne_pad h₃), if_neg (not_not_intro rfl), first_byte, hsecond]

/-- The last byte, from two letters and `==`. -/
theorem decodeBlock_one (a : UInt8) :
    decodeBlock (UInt8.ofNat (a.toNat / 4)) (UInt8.ofNat (a.toNat % 4 * 16)) 255 255 = [a] := by
  have hfirst := first_byte a 0
  rw [show (0 : UInt8).toNat / 16 = 0 from rfl, Nat.add_zero] at hfirst
  rw [decodeBlock, if_neg (not_not_intro rfl), hfirst]

theorem encoded_cons (a b c : UInt8) (r : List UInt8) :
    encoded (a :: b :: c :: r) =
      symbol (a.toNat / 4) :: symbol (a.toNat % 4 * 16 + b.toNat / 16) ::
        symbol (b.toNat % 16 * 4 + c.toNat / 64) :: symbol (c.toNat % 64) :: encoded r := by
  have hpad : padding (a :: b :: c :: r).length = padding r.length := by
    simp only [padding, List.length_cons]
    omega
  rw [encoded, hpad, chars]
  rfl

theorem length_encoded (src : List UInt8) : (encoded src).length = base64Length src.length := by
  rw [encoded, List.length_append, List.length_replicate, length_chars]

/-- The loop takes back what has been encoded. -/
theorem base64DecodeLoop_encoded {i : Nat} (hsrc : src = pre ++ encoded rest) (hi : i = pre.length)
    (hfuel : rest.length < fuel) (hint : src.length + 1 < 2 ^ 31) (hgap : rest.length ≤ gap.length) :
    base64DecodeLoop src src.length fuel i (done ++ gap) done.length =
      .ok ⟨-1, done ++ rest ++ gap.drop rest.length, (done ++ rest).length⟩ := by
  induction rest using chars.induct generalizing pre done gap fuel i with
  | case1 a b c r ih =>
    obtain ⟨fuel, rfl⟩ := Nat.exists_eq_succ_of_ne_zero (Nat.ne_zero_of_lt hfuel)
    obtain ⟨h₁, h₂, h₃, h₄⟩ := bits_lt a b c
    have hlen : (a :: b :: c :: r).length = r.length + 3 := rfl
    have hthree : [a, b, c].length = 3 := rfl
    have hdecode := decodeBlock_symbols a b c
    rw [← b64reverse_symbol h₁, ← b64reverse_symbol h₂, ← b64reverse_symbol h₃,
      ← b64reverse_symbol h₄] at hdecode
    rw [encoded_cons] at hsrc
    rw [hi, base64DecodeLoop_block hsrc (b64reverse_lt h₁) (b64reverse_lt h₂)
      (UInt8.ne_of_lt (b64reverse_lt h₃)) (UInt8.ne_of_lt (b64reverse_lt h₄)) (by omega) hdecode
      (by omega)]
    have hnext : src = pre ++ [symbol (a.toNat / 4), symbol (a.toNat % 4 * 16 + b.toNat / 16),
        symbol (b.toNat % 16 * 4 + c.toNat / 64), symbol (c.toNat % 64)] ++ encoded r := by
      rw [hsrc, List.append_assoc]
      rfl
    have hpos : pre.length + 4 = (pre ++ [symbol (a.toNat / 4),
        symbol (a.toNat % 4 * 16 + b.toNat / 16), symbol (b.toNat % 16 * 4 + c.toNat / 64),
        symbol (c.toNat % 64)]).length := by
      rw [List.length_append]
      rfl
    rw [hthree, ih hnext hpos (by omega) (by rw [List.length_drop]; omega), List.drop_drop, hlen,
      Nat.add_comm 3]
    simp
  | case2 a b =>
    obtain ⟨fuel, rfl⟩ : ∃ k, fuel = k + 1 + 1 := ⟨fuel - 2, by simp at hfuel; omega⟩
    obtain ⟨h₁, h₂, h₃, -⟩ := bits_lt a b 0
    have hthird : b.toNat % 16 * 4 + (0 : UInt8).toNat / 64 = b.toNat % 16 * 4 := rfl
    rw [hthird] at h₃
    have hdecode := decodeBlock_two a b
    rw [← b64reverse_symbol h₁, ← b64reverse_symbol h₂, ← b64reverse_symbol h₃,
      ← b64reverse_pad] at hdecode
    have hlen : src.length = pre.length + 4 := by
      rw [hsrc]
      exact List.length_append
    rw [hi, base64DecodeLoop_block hsrc (b64reverse_lt h₁) (b64reverse_lt h₂)
      (UInt8.ne_of_lt (b64reverse_lt h₃)) (by decide) (by omega) hdecode hgap, base64DecodeLoop,
      if_neg (by omega)]
    rfl
  | case3 a =>
    obtain ⟨fuel, rfl⟩ : ∃ k, fuel = k + 1 + 1 := ⟨fuel - 2, by simp at hfuel; omega⟩
    obtain ⟨h₁, h₂, -, -⟩ := bits_lt a 0 0
    have hsecond : a.toNat % 4 * 16 + (0 : UInt8).toNat / 16 = a.toNat % 4 * 16 := rfl
    rw [hsecond] at h₂
    have hdecode := decodeBlock_one a
    rw [← b64reverse_symbol h₁, ← b64reverse_symbol h₂, ← b64reverse_pad] at hdecode
    have hlen : src.length = pre.length + 4 := by
      rw [hsrc]
      exact List.length_append
    rw [hi, base64DecodeLoop_block hsrc (b64reverse_lt h₁) (b64reverse_lt h₂) (by decide)
      (by decide) (by omega) hdecode hgap, base64DecodeLoop, if_neg (by omega)]
    rfl
  | case4 =>
    obtain ⟨fuel, rfl⟩ := Nat.exists_eq_succ_of_ne_zero (Nat.ne_zero_of_lt hfuel)
    have hnone : encoded [] = [] := rfl
    rw [hsrc, hi, hnone, List.append_nil, base64DecodeLoop, if_neg (Nat.lt_irrefl _)]
    simp [pure, Except.pure]

/-- What has been encoded is decoded to what it was. -/
theorem base64_round_trip (src dst out : List UInt8) (hfits : base64Length src.length < 2 ^ 31)
    (hdst : base64Length src.length < dst.length) (hout : src.length ≤ out.length) :
    ∃ text : List UInt8,
      base64Encode src src.length dst =
        .ok (text ++ List.replicate (padding src.length) 61 ++
          0 :: dst.drop (base64Length src.length + 1)) ∧
      text.length + padding src.length = base64Length src.length ∧ (∀ ch ∈ text, ch ∈ b64) ∧
      base64Decode (text ++ List.replicate (padding src.length) 61) (base64Length src.length) out =
        .ok ⟨-1, src ++ out.drop src.length, src.length⟩ := by
  refine ⟨chars src, base64Encode_eq hfits hdst, length_chars src, chars_mem src, ?_⟩
  have hlen : src.length ≤ base64Length src.length := by
    rw [base64Length]
    omega
  have hfour : base64Length src.length % 4 = 0 := Nat.mul_mod_right ..
  have hint : (encoded src).length + 1 < 2 ^ 31 := by
    rw [length_encoded]
    omega
  rw [← length_encoded] at hlen ⊢
  have hloop := @base64DecodeLoop_encoded [] out [] src (encoded src) ((encoded src).length + 1) 0
    rfl rfl (Nat.lt_succ_of_le hlen) hint hout
  simp only [List.nil_append] at hloop
  rw [base64Decode]
  exact hloop

/-- `Mand`, into a buffer of nine bytes. -/
theorem base64_round_trip_mand :
    ∃ text : List UInt8,
      base64Encode [77, 97, 110, 100] 4 (List.replicate 9 7) = .ok (text ++ [0]) ∧
      base64Decode text 8 (List.replicate 5 7) = .ok ⟨-1, [77, 97, 110, 100, 7], 4⟩ := by
  obtain ⟨text, hencode, -, -, hdecode⟩ := base64_round_trip [77, 97, 110, 100]
    (List.replicate 9 7) (List.replicate 5 7) (by decide) (by decide) (by decide)
  exact ⟨text ++ List.replicate (padding 4) 61, hencode, hdecode⟩

end Decode

end Tst
