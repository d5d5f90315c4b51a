import Mathlib.Tactic.Linarith
import Tst.Http.Sha1Transform

/-!
# The digest of a stream

A context that has been fed with a message in pieces of any length holds the hash value of
the full blocks of the message, the bytes behind them, and the length in bits; `SHA1Final`
makes the digest of the standard from that.

## Main definitions

- `Sha1Ctx.Absorbed` — the context has been fed with a message

## Main results

- `sha1Update_absorbed` — one call of `SHA1Update`
- `sha1Zeros_absorbed` — the zero bytes of `SHA1Final`
- `sha1Final_digest`, `sha1_digest` — what comes out
-/

namespace Tst

open Bytes ByteOrder BlockStream CString

/-- The context has taken in the message `msg`. -/
structure Sha1Ctx.Absorbed (ctx : Sha1Ctx) (msg : List UInt8) : Prop where
  words : ctx.state.words = (absorb 64 Fips180.compress (Fips180.initial, []) msg).1
  waiting : ctx.buffer.take (msg.length % 64) =
    (absorb 64 Fips180.compress (Fips180.initial, []) msg).2
  count : ctx.count1.toNat * 2 ^ 32 + ctx.count0.toNat = 8 * msg.length % 2 ^ 64

namespace Sha1Ctx

theorem absorbed_init (ctx : Sha1Ctx) : (sha1Init ctx).Absorbed [] where
  words := rfl
  waiting := List.take_zero
  count := by simp [sha1Init]

variable {ctx : Sha1Ctx} {msg data : List UInt8}

/-- Where the next byte goes. -/
theorem Absorbed.index (h : ctx.Absorbed msg) :
    ((ctx.count0 >>> 3) &&& 63).toNat = msg.length % 64 := by
  have hcount := h.count
  have hlt := ctx.count0.toNat_lt
  rw [UInt32.toNat_and, UInt32.toNat_shiftRight, show (63 : UInt32).toNat = 2 ^ 6 - 1 from rfl,
    Nat.and_two_pow_sub_one_eq_mod, Nat.shiftRight_eq_div_pow]
  simp only [UInt32.reduceToNat, Nat.reduceMod, Nat.reducePow]
  omega

theorem Absorbed.length_waiting (_h : ctx.Absorbed msg) :
    (absorb 64 Fips180.compress (Fips180.initial, []) msg).2.length = msg.length % 64 := by
  rw [length_absorb (by decide), List.length_nil, Nat.zero_add]

end Sha1Ctx

/-- Two words that count up to `2 ^ 64`. -/
theorem pair_mod {r : ℕ} (x : ℕ) (hr : r < 2 ^ 32) :
    (x * 2 ^ 32 + r) % 2 ^ 64 = x % 2 ^ 32 * 2 ^ 32 + r := by
  omega

theorem carry_add {c₀ c₁ l n : ℕ} (h : c₁ * 2 ^ 32 + c₀ = 8 * n % 2 ^ 64) :
    (c₁ + (c₀ + l * 8 % 2 ^ 32) / 2 ^ 32 + l / 2 ^ 29) % 2 ^ 32 * 2 ^ 32 +
      (c₀ + l * 8 % 2 ^ 32) % 2 ^ 32 = 8 * (n + l) % 2 ^ 64 := by
  have hr : (c₀ + l * 8 % 2 ^ 32) % 2 ^ 32 < 2 ^ 32 := Nat.mod_lt _ (by decide)
  have hsum : (c₁ + (c₀ + l * 8 % 2 ^ 32) / 2 ^ 32 + l / 2 ^ 29) * 2 ^ 32 +
      (c₀ + l * 8 % 2 ^ 32) % 2 ^ 32 = c₁ * 2 ^ 32 + c₀ + 8 * l := by
    have hlow := Nat.div_add_mod (c₀ + l * 8 % 2 ^ 32) (2 ^ 32)
    have hbits := Nat.div_add_mod (l * 8) (2 ^ 32)
    have hhigh : l * 8 / 2 ^ 32 = l / 2 ^ 29 :=
      Nat.mul_div_mul_right l (2 ^ 29) (show 0 < 8 by decide)
    rw [hhigh] at hbits
    linarith
  rw [← pair_mod _ hr, hsum, h, Nat.mod_add_mod, Nat.mul_add]

/-- The carry into the upper half of the count, and the bits that `len << 3` loses. -/
theorem count_add (count0 count1 len : UInt32) (n : ℕ)
    (h : count1.toNat * 2 ^ 32 + count0.toNat = 8 * n % 2 ^ 64) :
    ((if count0 + (len <<< 3) < count0 then count1 + 1 else count1) + (len >>> 29)).toNat *
        2 ^ 32 + (count0 + (len <<< 3)).toNat = 8 * (n + len.toNat) % 2 ^ 64 := by
  have hlow : (count0 + (len <<< 3)).toNat = (count0.toNat + len.toNat * 8 % 2 ^ 32) % 2 ^ 32 := by
    rw [UInt32.toNat_add, UInt32.toNat_shiftLeft, Nat.shiftLeft_eq]
    rfl
  have hhigh : (len >>> 29).toNat = len.toNat / 2 ^ 29 := by
    rw [UInt32.toNat_shiftRight, Nat.shiftRight_eq_div_pow]
    rfl
  have hcarry : (if count0 + (len <<< 3) < count0 then count1 + 1 else count1).toNat =
      (count1.toNat + (count0.toNat + len.toNat * 8 % 2 ^ 32) / 2 ^ 32) % 2 ^ 32 := by
    have h0 := count0.toNat_lt
    have h1 := count1.toNat_lt
    have hbits : len.toNat * 8 % 2 ^ 32 < 2 ^ 32 := Nat.mod_lt _ (by decide)
    generalize len.toNat * 8 % 2 ^ 32 = bits at hlow hbits ⊢
    split
    · next hlt =>
      rw [UInt32.lt_iff_toNat_lt, hlow] at hlt
      rw [UInt32.toNat_add, show (count0.toNat + bits) / 2 ^ 32 = 1 by omega]
      rfl
    · next hle =>
      rw [UInt32.lt_iff_toNat_lt, hlow] at hle
      rw [show (count0.toNat + bits) / 2 ^ 32 = 0 by omega, Nat.add_zero, Nat.mod_eq_of_lt h1]
  rw [← carry_add h, UInt32.toNat_add, hcarry, hhigh, hlow, Nat.mod_add_mod]

theorem bytesAt_eq {data : List UInt8} {i n : ℕ} (h : i + n ≤ data.length) :
    bytesAt data i n = .ok (window data i n) := by
  rw [bytesAt, if_pos h]

/-- The loop over the blocks that lie in `data` as a whole. -/
theorem sha1Blocks_absorb {data : List UInt8} {len : UInt32} (hdata : len.toNat ≤ data.length)
    (hlen : len.toNat + 63 < 2 ^ 32) (fuel : ℕ) (i : UInt32) (state : Sha1State)
    (hi : i.toNat ≤ len.toNat) (hfuel : len.toNat < i.toNat + fuel) :
    ∃ i' state', sha1Blocks data len fuel i state = .ok (i', state') ∧ i.toNat ≤ i'.toNat ∧
      i'.toNat ≤ len.toNat ∧ len.toNat < i'.toNat + 64 ∧
      absorb 64 Fips180.compress (state.words, []) (window data i.toNat (i'.toNat - i.toNat)) =
        (state'.words, []) := by
  induction fuel generalizing i state with
  | zero => omega
  | succ fuel ih =>
    have h63 : (i + 63).toNat = i.toNat + 63 := by
      rw [UInt32.toNat_add]
      exact Nat.mod_eq_of_lt (by simp only [UInt32.reduceToNat]; omega)
    rw [sha1Blocks]
    by_cases hlt : i + 63 < len
    · have hroom : i.toNat + 64 ≤ len.toNat := by
        rw [UInt32.lt_iff_toNat_lt, h63] at hlt
        omega
      have h64 : (i + 64).toNat = i.toNat + 64 := by
        rw [UInt32.toNat_add]
        exact Nat.mod_eq_of_lt (by simp only [UInt32.reduceToNat]; omega)
      have hblock : (window data i.toNat 64).length = 64 := length_window (by omega)
      obtain ⟨i', state', heq, hle, hend, hrest, habs⟩ :=
        ih (i + 64) (sha1Transform state (window data i.toNat 64)) (by omega) (by omega)
      refine ⟨i', state', ?_, by omega, hend, hrest, ?_⟩
      · rw [if_pos hlt, bytesAt_eq (by omega)]
        exact heq
      · rw [show i'.toNat - i.toNat = 64 + (i'.toNat - (i + 64).toNat) by omega,
          ← window_append, absorb_append, absorb_block (by decide) hblock,
          ← words_sha1Transform state hblock, ← h64]
        exact habs
    · rw [if_neg hlt]
      rw [UInt32.lt_iff_toNat_lt, h63] at hlt
      refine ⟨i, state, rfl, Nat.le_refl _, hi, by omega, ?_⟩
      rw [Nat.sub_self, window_zero, absorb_nil]

/-- The hash value `s` and the bytes behind the last block. -/
structure Sha1Ctx.Holds (ctx : Sha1Ctx) (s : Fips180.Words) (buf : List UInt8) : Prop where
  words : ctx.state.words = s
  waiting : ctx.buffer.take buf.length = buf

/-- Bytes that leave the block open. -/
theorem Sha1Ctx.Holds.copy_wait {ctx : Sha1Ctx} {s : Fips180.Words} {buf bs : List UInt8}
    (h : ctx.Holds s buf) (hlen : buf.length + bs.length < 64) :
    ∃ ctx', ctx.copy buf.length bs = .ok ctx' ∧ ctx'.Holds s (buf ++ bs) ∧
      ctx'.count0 = ctx.count0 ∧ ctx'.count1 = ctx.count1 := by
  refine ⟨_, if_pos hlen.le, ⟨h.words, ?_⟩, rfl, rfl⟩
  rw [List.length_append, take_splice_end (by rw [ctx.length_buffer]; omega), h.waiting]

/-- Bytes that fill the block. -/
theorem Sha1Ctx.Holds.copy_fill {ctx : Sha1Ctx} {s : Fips180.Words} {buf bs : List UInt8}
    (h : ctx.Holds s buf) (hlen : buf.length + bs.length = 64) :
    ∃ ctx', ctx.copy buf.length bs = .ok ctx' ∧
      (sha1Transform ctx'.state ctx'.buffer).words = Fips180.compress s (buf ++ bs) ∧
      ctx'.count0 = ctx.count0 ∧ ctx'.count1 = ctx.count1 := by
  refine ⟨_, if_pos hlen.le, ?_, rfl, rfl⟩
  have hblock : splice ctx.buffer buf.length bs = buf ++ bs := by
    have hend : (splice ctx.buffer buf.length bs).take (buf.length + bs.length) =
        ctx.buffer.take buf.length ++ bs := take_splice_end (by rw [ctx.length_buffer]; omega)
    rwa [h.waiting, hlen, List.take_of_length_le
      (by rw [length_splice, ctx.length_buffer])] at hend
  rw [words_sha1Transform _ ((length_splice _ _ _).trans ctx.length_buffer), h.words, hblock]

/-- The context in `SHA1Update` once it has counted the new bits. -/
theorem Sha1Ctx.Absorbed.counted {ctx : Sha1Ctx} {msg data : List UInt8} (h : ctx.Absorbed msg)
    {len : UInt32} (hdata : data.length = len.toNat) {counted : Sha1Ctx}
    (hcounted : counted = { ctx with
      count0 := ctx.count0 + (len <<< 3)
      count1 := (if ctx.count0 + (len <<< 3) < ctx.count0 then ctx.count1 + 1 else ctx.count1) +
        (len >>> 29) }) :
    counted.Holds (absorb 64 Fips180.compress (Fips180.initial, []) msg).1
        (absorb 64 Fips180.compress (Fips180.initial, []) msg).2 ∧
      counted.count1.toNat * 2 ^ 32 + counted.count0.toNat =
        8 * (msg ++ data).length % 2 ^ 64 := by
  subst hcounted
  refine ⟨⟨h.words, ?_⟩, ?_⟩
  · rw [h.length_waiting]
    exact h.waiting
  · rw [List.length_append, hdata]
    exact count_add ctx.count0 ctx.count1 len msg.length h.count

/-- What a context holds that has absorbed a message. -/
theorem Sha1Ctx.Holds.absorbed {ctx : Sha1Ctx} {s : Fips180.Words} {buf msg : List UInt8}
    (h : ctx.Holds s buf)
    (habs : absorb 64 Fips180.compress (Fips180.initial, []) msg = (s, buf))
    (hcount : ctx.count1.toNat * 2 ^ 32 + ctx.count0.toNat = 8 * msg.length % 2 ^ 64) :
    ctx.Absorbed msg where
  words := by rw [habs, h.words]
  waiting := by
    have hlen : buf.length = msg.length % 64 := by
      have hwait : (absorb 64 Fips180.compress (Fips180.initial, []) msg).2.length =
          (0 + msg.length) % 64 := length_absorb (by decide) msg
      rw [habs, Nat.zero_add] at hwait
      exact hwait
    rw [habs, ← hlen, h.waiting]
  count := hcount

/-- `SHA1Update` takes in the bytes behind the message so far. -/
theorem sha1Update_absorbed {ctx : Sha1Ctx} {msg data : List UInt8} {len : UInt32}
    (h : ctx.Absorbed msg) (hdata : len.toNat ≤ data.length) (hlen : len.toNat + 63 < 2 ^ 32) :
    ∃ ctx', sha1Update ctx data len = .ok ctx' ∧
      ctx'.Absorbed (msg ++ window data 0 len.toNat) := by
  have hindex := h.index
  have hwait := h.length_waiting
  have hj : msg.length % 64 < 64 := Nat.mod_lt _ (by decide)
  have hnew : (window data 0 len.toNat).length = len.toNat := length_window (by omega)
  simp only [sha1Update]
  generalize hctx : ({ ctx with
    count0 := ctx.count0 + (len <<< 3)
    count1 := (if ctx.count0 + (len <<< 3) < ctx.count0 then ctx.count1 + 1 else ctx.count1) +
      (len >>> 29) } : Sha1Ctx) = counted
  obtain ⟨hholds, hcount⟩ := h.counted hnew hctx.symm
  -- the hash value and the bytes behind it
  obtain ⟨s, buf, habs⟩ : ∃ s buf,
      absorb 64 Fips180.compress (Fips180.initial, []) msg = (s, buf) := ⟨_, _, rfl⟩
  rw [habs] at hwait hholds
  simp only at hwait hholds
  rw [← hwait] at hindex hj
  have hsum : ((ctx.count0 >>> 3) &&& 63) + len > 63 ↔ 63 < buf.length + len.toNat := by
    rw [gt_iff_lt, UInt32.lt_iff_toNat_lt, UInt32.toNat_add, hindex, Nat.mod_eq_of_lt (by omega)]
    rfl
  rw [hindex]
  by_cases hfull : 63 < buf.length + len.toNat
  · rw [if_pos (hsum.mpr hfull)]
    have hi : ((64 : UInt32) - ((ctx.count0 >>> 3) &&& 63)).toNat = 64 - buf.length := by
      rw [UInt32.toNat_sub_of_le _ _ (by rw [UInt32.le_iff_toNat_le, hindex]; exact hj.le), hindex]
      rfl
    generalize (64 : UInt32) - ((ctx.count0 >>> 3) &&& 63) = i at hi ⊢
    have hfirst : (window data 0 i.toNat).length = i.toNat := length_window (by omega)
    obtain ⟨filled, hcopy, hwords, hcount0, hcount1⟩ :=
      hholds.copy_fill (show buf.length + (window data 0 i.toNat).length = 64 by omega)
    obtain ⟨i', state', hloop, hle, hend, hrest, hblocks⟩ :=
      sha1Blocks_absorb hdata hlen (len.toNat + 1) i (sha1Transform filled.state filled.buffer)
        (by omega) (by omega)
    have hlast : (len - i').toNat = len.toNat - i'.toNat :=
      UInt32.toNat_sub_of_le _ _ (UInt32.le_iff_toNat_le.mpr hend)
    have htail : (window data i'.toNat (len - i').toNat).length = (len - i').toNat :=
      length_window (by omega)
    have hempty : ({ filled with state := state' } : Sha1Ctx).Holds state'.words [] :=
      ⟨rfl, List.take_zero⟩
    obtain ⟨ctx', hcopy', hholds', hcount0', hcount1'⟩ := hempty.copy_wait
      (show ([] : List UInt8).length + (window data i'.toNat (len - i').toNat).length < 64 by
        rw [List.length_nil]
        omega)
    have hbytes : window data 0 len.toNat = window data 0 i.toNat ++
        (window data i.toNat (i'.toNat - i.toNat) ++ window data i'.toNat (len - i').toNat) := by
      have hfront := window_append data 0 i.toNat (i'.toNat - i.toNat)
      have hwhole := window_append data 0 i'.toNat (len - i').toNat
      rw [Nat.zero_add, Nat.add_sub_cancel' hle] at hfront
      rw [Nat.zero_add, hlast, Nat.add_sub_cancel' hend, ← hfront, List.append_assoc] at hwhole
      rw [hlast, hwhole]
    refine ⟨ctx', ?_, hholds'.absorbed ?_ ?_⟩
    · have hstored : bytesAt data i'.toNat (len - i').toNat = .ok _ := bytesAt_eq (by omega)
      rw [bytesAt_eq (by omega), ok_bind, hcopy, ok_bind, hloop, ok_bind]
      simp only [hstored, ok_bind]
      exact hcopy'
    · rw [hbytes, absorb_append, habs, absorb_append, absorb_fill hj (by omega), ← hwords,
        absorb_append, hblocks, absorb_wait (by rw [List.length_nil]; omega)]
    · rw [hcount0', hcount1']
      simp only [hcount0, hcount1]
      exact hcount
  · rw [if_neg (fun hc => hfull (hsum.mp hc)), bytesAt_eq (by omega), ok_bind]
    obtain ⟨ctx', hcopy, hholds', hcount0, hcount1⟩ :=
      hholds.copy_wait (show buf.length + (window data 0 len.toNat).length < 64 by omega)
    refine ⟨ctx', hcopy, hholds'.absorbed ?_ ?_⟩
    · rw [absorb_append, habs, absorb_wait (by omega)]
    · rw [hcount0, hcount1, hcount]

/-- The test of the loop in `SHA1Final` looks at the place of the next byte. -/
theorem Sha1Ctx.Absorbed.full_iff {ctx : Sha1Ctx} {msg : List UInt8} (h : ctx.Absorbed msg) :
    ctx.count0 &&& (504 : UInt32) = 448 ↔ msg.length % 64 = 56 := by
  have hmask : ctx.count0 &&& (504 : UInt32) = ((ctx.count0 >>> 3) &&& 63) <<< 3 := by
    apply UInt32.eq_of_toBitVec_eq
    ext i hi
    simp
    interval_cases i <;> simp
  have hindex := h.index
  rw [hmask, ← UInt32.toNat_inj, UInt32.toNat_shiftLeft, hindex, Nat.shiftLeft_eq]
  simp only [UInt32.reduceToNat, Nat.reduceMod, Nat.reducePow]
  omega

/-- The zero bytes of `SHA1Final` fill the message up to where its length goes. -/
theorem sha1Zeros_absorbed {ctx : Sha1Ctx} {msg : List UInt8} (h : ctx.Absorbed msg) {k : ℕ}
    (hk : k < 64) (hpos : (msg.length + k) % 64 = 56) {fuel : ℕ} (hfuel : k < fuel) :
    ∃ ctx', sha1Zeros fuel ctx = .ok ctx' ∧ ctx'.Absorbed (msg ++ List.replicate k 0) := by
  induction k generalizing ctx msg fuel with
  | zero =>
    obtain ⟨fuel, rfl⟩ := Nat.exists_eq_succ_of_ne_zero (Nat.ne_of_gt hfuel)
    refine ⟨ctx, ?_, ?_⟩
    · rw [sha1Zeros, if_neg (not_not_intro (h.full_iff.mpr hpos))]
    · rw [List.replicate_zero, List.append_nil]
      exact h
  | succ k ih =>
    obtain ⟨fuel, rfl⟩ := Nat.exists_eq_succ_of_ne_zero (Nat.ne_of_gt (Nat.zero_lt_of_lt hfuel))
    have hopen : ctx.count0 &&& (504 : UInt32) ≠ 448 := by
      intro hfull
      have hplace := h.full_iff.mp hfull
      omega
    obtain ⟨ctx₁, hzero, habs⟩ := sha1Update_absorbed h
      (show (1 : UInt32).toNat ≤ [(0 : UInt8)].length from Nat.le_refl 1) (by decide)
    obtain ⟨ctx₂, hrest, habs₂⟩ := ih habs (by omega)
      (by rw [List.length_append, length_window (Nat.le_refl _)]; simp; omega)
      (show k < fuel by omega)
    refine ⟨ctx₂, ?_, ?_⟩
    · rw [sha1Zeros, if_pos hopen, hzero, ok_bind]
      exact hrest
    · rw [List.append_assoc] at habs₂
      exact habs₂

/-! ## The digest -/

/-- The byte of a word that `SHA1Final` reaches by a shift. -/
theorem toUInt8_shift (w : UInt32) {m : ℕ} (hm : m < 4) :
    ((w >>> UInt32.ofNat (m * 8)) &&& 255).toUInt8 = UInt8.ofNat (w.toNat / 256 ^ m % 256) := by
  have hshift : (UInt32.ofNat (m * 8)).toNat % 32 = 8 * m := by
    rw [UInt32.toNat_ofNat']
    omega
  apply UInt8.toNat_inj.mp
  rw [UInt32.toNat_toUInt8, UInt32.toNat_and, UInt32.toNat_shiftRight, hshift,
    show (255 : UInt32).toNat = 2 ^ 8 - 1 from rfl, Nat.and_two_pow_sub_one_eq_mod,
    Nat.shiftRight_eq_div_pow, Nat.pow_mul, UInt8.toNat_ofNat']

/-- The four bytes of a word. -/
theorem word_bytes (w : UInt32) :
    [3, 2, 1, 0].map (fun m => ((w >>> UInt32.ofNat (m * 8)) &&& 255).toUInt8) =
      beBytes 4 w.toNat := by
  simp only [List.map_cons, List.map_nil]
  rw [toUInt8_shift w (show 3 < 4 by decide), toUInt8_shift w (show 2 < 4 by decide),
    toUInt8_shift w (show 1 < 4 by decide), toUInt8_shift w (show 0 < 4 by decide)]
  simp only [beBytes, leBytes, Nat.div_div_eq_div_mul]
  simp

theorem digestBytes_eq (state : Sha1State) : digestBytes state = state.words.bytes := by
  have hbytes : digestBytes state = [state[0], state[1], state[2], state[3], state[4]].flatMap
      fun w => [3, 2, 1, 0].map fun m => ((w >>> UInt32.ofNat (m * 8)) &&& 255).toUInt8 := rfl
  simp only [hbytes, word_bytes]
  rfl

/-- The length field of a context. -/
theorem Sha1Ctx.Absorbed.finalCount_eq {ctx : Sha1Ctx} {msg : List UInt8}
    (h : ctx.Absorbed msg) : finalCount ctx = beBytes 8 (8 * msg.length) := by
  have hbytes : finalCount ctx =
      [3, 2, 1, 0].map (fun m => ((ctx.count1 >>> UInt32.ofNat (m * 8)) &&& 255).toUInt8) ++
        [3, 2, 1, 0].map (fun m => ((ctx.count0 >>> UInt32.ofNat (m * 8)) &&& 255).toUInt8) := rfl
  have h0 := ctx.count0.toNat_lt
  have hhigh : (ctx.count1.toNat * 2 ^ 32 + ctx.count0.toNat) / 256 ^ 4 = ctx.count1.toNat := by
    omega
  have hlow : (ctx.count1.toNat * 2 ^ 32 + ctx.count0.toNat) % 256 ^ 4 = ctx.count0.toNat := by
    omega
  rw [hbytes, word_bytes, word_bytes, beBytes, beBytes, beBytes, ← leBytes_mod 8,
    show (256 : ℕ) ^ 8 = 2 ^ 64 by decide, ← h.count, leBytes_add_mul 4 4, hhigh,
    List.reverse_append, ← leBytes_mod 4 (_ + _), hlow]

/-- `SHA1Final` after a message. -/
theorem sha1Final_absorbed {ctx : Sha1Ctx} {msg : List UInt8} (h : ctx.Absorbed msg) :
    sha1Final ctx = .ok (Fips180.sha1 msg, .wiped) := by
  have hcount := h.finalCount_eq
  obtain ⟨ctx₁, hmark, habs₁⟩ := sha1Update_absorbed h
    (show (1 : UInt32).toNat ≤ [(0x80 : UInt8)].length from Nat.le_refl 1) (by decide)
  have hfill := Fips180.fill_spec msg.length
  obtain ⟨ctx₂, hzeros, habs₂⟩ := sha1Zeros_absorbed habs₁ (Fips180.fill_lt msg.length)
    (by rw [List.length_append, length_window (Nat.le_refl _)]; exact hfill)
    (Fips180.fill_lt msg.length)
  obtain ⟨ctx₃, hlength, habs₃⟩ := sha1Update_absorbed habs₂
    (show (8 : UInt32).toNat ≤ (beBytes 8 (8 * msg.length)).length by
      rw [length_beBytes]; decide) (by decide)
  have hpad : msg ++ window [0x80] 0 (1 : UInt32).toNat ++
      List.replicate (Fips180.fill msg.length) 0 ++
        window (beBytes 8 (8 * msg.length)) 0 (8 : UInt32).toNat = Fips180.pad msg := by
    have hwindow : window (beBytes 8 (8 * msg.length)) 0 8 = beBytes 8 (8 * msg.length) := by
      rw [window, List.drop_zero, List.take_of_length_le (length_beBytes _ _).le]
    rw [Fips180.pad, ← hwindow]
    rfl
  have hwords := habs₃.words
  rw [hpad, Fips180.absorb_pad] at hwords
  rw [sha1Final, hmark, ok_bind, hzeros, ok_bind, hcount, hlength, ok_bind, digestBytes_eq, hwords]
  rfl

/-- The context after the pieces of a message. -/
theorem foldlM_sha1Update {ctx : Sha1Ctx} {msg : List UInt8} (h : ctx.Absorbed msg)
    (pieces : List (List UInt8)) (hlen : ∀ p ∈ pieces, p.length + 63 < 2 ^ 32) :
    ∃ ctx', pieces.foldlM (fun ctx p => sha1Update ctx p (UInt32.ofNat p.length)) ctx = .ok ctx' ∧
      ctx'.Absorbed (msg ++ pieces.flatten) := by
  induction pieces generalizing ctx msg with
  | nil => exact ⟨ctx, rfl, by simpa using h⟩
  | cons p pieces ih =>
    have hp := hlen p List.mem_cons_self
    have hn : (UInt32.ofNat p.length).toNat = p.length := UInt32.toNat_ofNat_of_lt'
      (show p.length < 2 ^ 32 by omega)
    obtain ⟨ctx₁, hfirst, habs₁⟩ := sha1Update_absorbed h (show (UInt32.ofNat p.length).toNat ≤
      p.length from hn.le) (by omega)
    obtain ⟨ctx₂, hrest, habs₂⟩ := ih habs₁ (fun q hq => hlen q (List.mem_cons_of_mem p hq))
    refine ⟨ctx₂, ?_, ?_⟩
    · rw [List.foldlM_cons, hfirst]
      exact hrest
    · rw [hn, window, List.drop_zero, List.take_of_length_le (Nat.le_refl _)] at habs₂
      rwa [List.flatten_cons, ← List.append_assoc]

/-- The context after the bytes of a text one by one. -/
theorem foldlM_byte {ctx : Sha1Ctx} (h : ctx.Absorbed []) {str : List UInt8} {n : ℕ}
    (hn : n ≤ str.length) :
    ∃ ctx', (List.range n).foldlM (fun ctx ii => sha1Update ctx (str.drop ii) 1) ctx = .ok ctx' ∧
      ctx'.Absorbed (str.take n) := by
  induction n with
  | zero => exact ⟨ctx, rfl, by simpa using h⟩
  | succ n ih =>
    obtain ⟨ctx₁, hfront, habs₁⟩ := ih (by omega)
    have hbyte : (1 : UInt32).toNat ≤ (str.drop n).length := by
      rw [List.length_drop]
      change 1 ≤ str.length - n
      omega
    obtain ⟨ctx₂, hlast, habs₂⟩ := sha1Update_absorbed habs₁ hbyte (by decide)
    refine ⟨ctx₂, ?_, ?_⟩
    · rw [List.range_succ, List.foldlM_append, hfront]
      change (sha1Update ctx₁ (str.drop n) 1 >>= pure) = _
      rw [hlast]
      rfl
    · rw [List.take_add]
      exact habs₂

/-- Any number of blocks, one after the other. -/
theorem sha1Transform_chain (state : Sha1State) (bs : List (List UInt8))
    (h : ∀ b ∈ bs, b.length = 64) :
    (bs.foldl sha1Transform state).words = bs.foldl Fips180.compress state.words := by
  induction bs generalizing state with
  | nil => rfl
  | cons b bs ih =>
    rw [List.foldl_cons, List.foldl_cons, ih _ (fun c hc => h c (List.mem_cons_of_mem b hc)),
      words_sha1Transform state (h b List.mem_cons_self)]

theorem sha1Transform_chain_zeros :
    ([List.replicate 64 0, List.replicate 64 1].foldl sha1Transform (.replicate 5 0)).words =
      [List.replicate 64 0, List.replicate 64 1].foldl Fips180.compress
        (Sha1State.words (.replicate 5 0)) :=
  sha1Transform_chain _ _ (by simp)

/-- A message that is handed over in pieces has the digest of the standard, whatever the
context has held before. `SHA1` makes the same digest of a text at once. -/
theorem sha1_digest (ctx : Sha1Ctx) (pieces : List (List UInt8))
    (hlen : ∀ p ∈ pieces, p.length + 63 < 2 ^ 32) :
    (pieces.foldlM (fun ctx p => sha1Update ctx p (UInt32.ofNat p.length)) (sha1Init ctx) >>=
        sha1Final) = .ok (Fips180.sha1 pieces.flatten, .wiped) ∧
      ∀ (str : List UInt8) (len : UInt32), str.take len.toNat = pieces.flatten →
        len.toNat ≤ str.length → sha1 ctx str len = .ok (Fips180.sha1 pieces.flatten) := by
  constructor
  · obtain ⟨ctx', heq, habs⟩ := foldlM_sha1Update ctx.absorbed_init pieces hlen
    rw [heq, ok_bind, sha1Final_absorbed habs, List.nil_append]
  · intro str len htake hle
    obtain ⟨ctx', heq, habs⟩ := foldlM_byte ctx.absorbed_init hle
    rw [sha1, heq, ok_bind, sha1Final_absorbed habs, ← htake]
    rfl

theorem sha1_digest_abc :
    ([[97], [98, 99]].foldlM (fun ctx p => sha1Update ctx p (UInt32.ofNat p.length))
        (sha1Init .wiped) >>= sha1Final) = .ok (Fips180.sha1 [97, 98, 99], .wiped) ∧
      sha1 .wiped [97, 98, 99, 0] 3 = .ok (Fips180.sha1 [97, 98, 99]) := by
  have h := sha1_digest .wiped [[97], [98, 99]] (by decide)
  exact ⟨h.1, h.2 [97, 98, 99, 0] 3 (by decide) (by decide)⟩

end Tst
