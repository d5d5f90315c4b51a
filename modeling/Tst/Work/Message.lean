import Tst.Data
import Tst.Lib.CString
import Tst.Lib.Framing

/-!
# Messages that are read byte by byte

`http()` and `ami_event()` do not know the length of a message. They read one byte at a
time, until the last four bytes received are CR LF CR LF or no more bytes have been counted.

## Main definitions

- `readMessage` — the loop
- `messageComplete` — what ends it

## Main results

- `readMessage_holding` — the loop takes the bytes up to the end of a message
-/

namespace Tst

open Bytes Framing

/-- The last four bytes received are CR LF CR LF. -/
def TstData.endsMessage (d : TstData) (base : UInt32) : Bool :=
  4 ≤ d.comLen && window d.s ((base + d.comLen).toNat - 4) 4 = [13, 10, 13, 10]

/-- `com_len += read(sd, s + base + com_len, 1)`. With nothing unread the answer is -1. -/
def readByte (base : UInt32) (d : TstData) : List UInt8 → TstData × List UInt8
  | [] => ({ d with comLen := addResult d.comLen none }, [])
  | b :: u =>
    ({ d with
        s := splice d.s (base + d.comLen).toNat [b]
        comLen := addResult d.comLen (some 1) }, u)

/-- The loop over the bytes of a message, with `remain` as its counter; `more` is what it
tests besides. -/
def readMessage (base : UInt32) (more : TstData → Bool) : Nat → TstData → List UInt8 →
    TstData × List UInt8
  | 0, d, u => (d, u)
  | remain + 1, d, u =>
    if more d && !d.endsMessage base then
      let (d, u) := readByte base d u
      readMessage base more remain d u
    else (d, u)

/-- The bytes received end with CR LF CR LF. -/
def messageComplete (p : List UInt8) : Bool := [13, 10, 13, 10].isSuffixOf p

/-- A count, as an `int`. -/
theorem toNat_bmod_le (n : Nat) : (Int.bmod n (2 ^ 32)).toNat ≤ n := by
  rw [Int.bmod_eq_emod]
  split
  · omega
  · omega

/-- The smaller one of two counts, as `int`s, exceeds neither. -/
theorem toNat_min_bmod_le (a b : Nat) :
    (min (Int.bmod a (2 ^ 32)) (Int.bmod b (2 ^ 32))).toNat ≤ a ∧
      (min (Int.bmod a (2 ^ 32)) (Int.bmod b (2 ^ 32))).toNat ≤ b := by
  have hleft := toNat_bmod_le a
  have hright := toNat_bmod_le b
  generalize Int.bmod a (2 ^ 32) = left at hleft ⊢
  generalize Int.bmod b (2 ^ 32) = right at hright ⊢
  omega

-- ════════════════════════════════════════════════════════════════════════
-- Reading into a buffer that is empty behind what it holds
-- ════════════════════════════════════════════════════════════════════════

section Holding

variable {sLen c : UInt32} {x u : List UInt8}

/-- A buffer that holds `x`, with the count that `tst_main` stored in it. -/
def counted (sLen : UInt32) (x : List UInt8) (c : UInt32) : TstData :=
  { holding sLen x with checkedLen := c }

theorem length_counted (hx : x.length ≤ sLen.toNat) :
    (counted sLen x c).s.length = sLen.toNat := by
  change (x ++ List.replicate _ _).length = _
  rw [List.length_append, List.length_replicate]
  omega

/-- A buffer that is as large as it is noted to be is empty after `reset_data`. -/
theorem resetData_eq {d : TstData} (h : d.s.length = d.sLen.toNat) :
    d.resetData = counted d.sLen [] d.checkedLen := by
  have hlen : (List.replicate d.sLen.toNat (0 : UInt8)).length = d.s.length := by
    rw [List.length_replicate, h]
  have hs : splice d.s 0 (List.replicate d.sLen.toNat 0) = List.replicate d.sLen.toNat 0 := by
    rw [splice_eq (by rw [hlen, Nat.zero_add]), List.drop_eq_nil_of_le (by rw [hlen, Nat.zero_add])]
    simp
  rw [TstData.resetData, hs]
  rfl

theorem resetData_counted (hx : x.length ≤ sLen.toNat) :
    (counted sLen x c).resetData = counted sLen [] c :=
  resetData_eq (length_counted hx)

/-- The NUL is already there. -/
theorem store_counted (hx : x.length < sLen.toNat) :
    CString.store (counted sLen x c).s x.length 0 = .ok (counted sLen x c).s ∧
      (counted sLen x c).s[x.length]? = some 0 := by
  have hfree : sLen.toNat - x.length = sLen.toNat - x.length - 1 + 1 := by omega
  have hs : (counted sLen x c).s = x ++ 0 :: List.replicate (sLen.toNat - x.length - 1) 0 := by
    change x ++ List.replicate _ _ = _
    rw [hfree, List.replicate_succ]
    rfl
  rw [hs]
  exact ⟨CString.store_at rfl rfl 0, by simp⟩

theorem comLen_counted (hx : x.length ≤ sLen.toNat) :
    (counted sLen x c).comLen.toNat = x.length := by
  have hlt := sLen.toNat_lt
  change (UInt32.ofNat x.length).toNat = _
  rw [UInt32.toNat_ofNat']
  omega

/-- A copy behind what the buffer holds. -/
theorem splice_counted {bs : List UInt8} (h : x.length + bs.length ≤ sLen.toNat) :
    splice (counted sLen x c).s x.length bs = (counted sLen (x ++ bs) c).s := by
  have hfree : List.replicate (sLen.toNat - x.length) (0 : UInt8) =
      List.replicate bs.length 0 ++ List.replicate (sLen.toNat - (x ++ bs).length) 0 := by
    rw [List.replicate_append_replicate, List.length_append]
    congr 1
    omega
  change splice (x ++ _) _ _ = x ++ bs ++ _
  rw [hfree, splice_append List.length_replicate, List.append_assoc]

/-- The counter behind such a copy. -/
theorem addResult_counted (bs : List UInt8) :
    addResult (counted sLen x c).comLen (some bs.length) = UInt32.ofNat (x ++ bs).length := by
  rw [addResult, List.length_append, UInt32.ofNat_add]
  rfl

theorem readByte_counted (hx : x.length < sLen.toNat) (b : UInt8) (u : List UInt8) :
    readByte 0 (counted sLen x c) (b :: u) = (counted sLen (x ++ [b]) c, u) := by
  have hpos : (0 + (counted sLen x c).comLen).toNat = x.length := by
    rw [UInt32.zero_add]
    exact comLen_counted hx.le
  have hone : (1 : Nat) = [b].length := rfl
  have hs : splice (counted sLen x c).s x.length [b] = (counted sLen (x ++ [b]) c).s :=
    splice_counted hx
  simp only [readByte, hpos, hone, addResult_counted, hs]
  rfl

/-- The last bytes of a buffer are those of what it holds. -/
theorem endsMessage_counted (hx : x.length < sLen.toNat) :
    (counted sLen x c).endsMessage 0 = messageComplete x := by
  have hcom : (counted sLen x c).comLen.toNat = x.length := comLen_holding hx
  have hfour : (4 ≤ (counted sLen x c).comLen) ↔ 4 ≤ x.length := by
    rw [UInt32.le_iff_toNat_le, hcom]
    rfl
  have hwin : 4 ≤ x.length →
      window (counted sLen x c).s (x.length - 4) 4 = x.drop (x.length - 4) := by
    intro h4
    change ((x ++ _).drop _).take 4 = _
    rw [List.drop_append_of_le_length (Nat.sub_le _ _),
      List.take_append_of_le_length (by rw [List.length_drop]; omega),
      List.take_of_length_le (by rw [List.length_drop]; omega)]
  rw [TstData.endsMessage, UInt32.zero_add, hcom, messageComplete, Bool.eq_iff_iff]
  simp only [Bool.and_eq_true, decide_eq_true_eq, List.isSuffixOf_iff_suffix, hfour]
  constructor
  · rintro ⟨h4, hlast⟩
    rw [← hlast, hwin h4]
    exact List.drop_suffix _ _
  · intro hsuffix
    have h4 : 4 ≤ x.length := hsuffix.length_le
    exact ⟨h4, (hwin h4).trans (List.suffix_iff_eq_drop.mp hsuffix).symm⟩

/-- The loop takes bytes up to the end of a message, or as many as have been counted. -/
theorem readMessage_counted (more : TstData → Bool) {n : Nat}
    (hmore : ∀ y : List UInt8, y.length < sLen.toNat → more (counted sLen y c) = true)
    (hx : x.length + n ≤ sLen.toNat) (hn : n ≤ u.length) :
    readMessage 0 more n (counted sLen x c) u =
      (counted sLen (feed messageComplete n x u).1 c, (feed messageComplete n x u).2) := by
  induction n generalizing x u with
  | zero => rfl
  | succ n ih =>
    obtain ⟨b, u, rfl⟩ := List.exists_cons_of_length_pos (by omega : 0 < u.length)
    rw [readMessage, hmore x (by omega), endsMessage_counted (by omega), Bool.true_and, feed]
    cases messageComplete x with
    | true => rfl
    | false =>
      rw [Bool.not_false, if_pos rfl, if_neg Bool.false_ne_true, readByte_counted (by omega)]
      apply ih
      · rw [List.length_append, List.length_singleton]
        omega
      · exact Nat.le_of_succ_le_succ hn

end Holding

end Tst
