import Mathlib.Data.List.Basic
import Mathlib.Tactic.Ring

/-!
# Decimal numerals

The numeral of a number, as a formatted print writes it, and the number that a row of
digits stands for.

## Main results

- `value_numeral` — a numeral is read back
- `takeDigits_numeral` — and its end is found
-/

namespace Decimal

/-- The character of a digit. -/
def digit (n : Nat) : UInt8 := UInt8.ofNat (48 + n)

def isDigit (b : UInt8) : Bool := 48 ≤ b && b ≤ 57

/-- The digits of `n` in front of `acc`; the lowest one is written first. -/
def numeralLoop : Nat → Nat → List UInt8 → List UInt8
  | 0, _, acc => acc
  | fuel + 1, n, acc =>
    if n < 10 then digit n :: acc else numeralLoop fuel (n / 10) (digit (n % 10) :: acc)

/-- The numeral of `n`. -/
def numeral (n : Nat) : List UInt8 := numeralLoop (n + 1) n []

/-- The number that a row of digits stands for, with `n` for the digits before it. -/
def valueFrom (n : Nat) (s : List UInt8) : Nat := s.foldl (fun n b => n * 10 + (b.toNat - 48)) n

theorem toNat_digit {n : Nat} (h : n < 10) : (digit n).toNat = 48 + n := by
  rw [digit, UInt8.toNat_ofNat']
  omega

theorem isDigit_digit {n : Nat} (h : n < 10) : isDigit (digit n) = true := by
  simp only [isDigit, Bool.and_eq_true, decide_eq_true_eq, UInt8.le_iff_toNat_le, toNat_digit h]
  exact ⟨Nat.le_add_right 48 n, show 48 + n ≤ 57 by omega⟩

@[simp] theorem valueFrom_nil (n : Nat) : valueFrom n [] = n := rfl

theorem valueFrom_digit_cons {k : Nat} (hk : k < 10) (n : Nat) (s : List UInt8) :
    valueFrom n (digit k :: s) = valueFrom (n * 10 + k) s := by
  rw [valueFrom, List.foldl_cons, toNat_digit hk, Nat.add_sub_cancel_left]
  rfl

theorem valueFrom_numeralLoop {fuel n : Nat} (h : n < fuel) (acc : List UInt8) :
    valueFrom 0 (numeralLoop fuel n acc) = valueFrom n acc := by
  induction fuel generalizing n acc with
  | zero => omega
  | succ fuel ih =>
    rw [numeralLoop]
    by_cases hn : n < 10
    · rw [if_pos hn, valueFrom_digit_cons hn, Nat.zero_mul, Nat.zero_add]
    · have hlow : n % 10 < 10 := Nat.mod_lt _ (by decide)
      have hdiv : n / 10 * 10 + n % 10 = n := by omega
      rw [if_neg hn, ih (by omega), valueFrom_digit_cons hlow, hdiv]

/-- A numeral is read back. -/
theorem value_numeral (n : Nat) : valueFrom 0 (numeral n) = n :=
  valueFrom_numeralLoop (Nat.lt_succ_self n) []

theorem isDigit_numeralLoop {fuel n : Nat} {acc : List UInt8}
    (hacc : ∀ b ∈ acc, isDigit b = true) : ∀ b ∈ numeralLoop fuel n acc, isDigit b = true := by
  induction fuel generalizing n acc with
  | zero => exact hacc
  | succ fuel ih =>
    rw [numeralLoop]
    by_cases hn : n < 10
    · rw [if_pos hn]
      exact List.forall_mem_cons.mpr ⟨isDigit_digit hn, hacc⟩
    · rw [if_neg hn]
      apply ih
      exact List.forall_mem_cons.mpr ⟨isDigit_digit (Nat.mod_lt _ (by decide)), hacc⟩

theorem isDigit_numeral (n : Nat) : ∀ b ∈ numeral n, isDigit b = true :=
  isDigit_numeralLoop (List.forall_mem_nil _)

/-- The digits of a text that goes on behind a numeral are those of the numeral. -/
theorem takeDigits_numeral {n : Nat} {b : UInt8} (hb : isDigit b = false) (r : List UInt8) :
    (numeral n ++ b :: r).takeWhile isDigit = numeral n := by
  rw [List.takeWhile_append_of_pos (isDigit_numeral n), List.takeWhile_cons, hb]
  exact List.append_nil _

theorem numeral_injective : Function.Injective numeral := by
  intro m n h
  rw [← value_numeral m, h, value_numeral]

/-- Two texts that begin with a numeral begin with the same one. -/
theorem numeral_append_inj {m n : Nat} {b : UInt8} {x y : List UInt8} (hb : isDigit b = false)
    (h : numeral m ++ b :: x = numeral n ++ b :: y) : m = n ∧ x = y := by
  have hnumeral : numeral m = numeral n := by
    rw [← takeDigits_numeral hb x, h, takeDigits_numeral hb]
  rw [hnumeral] at h
  exact ⟨numeral_injective hnumeral, (List.cons.inj (List.append_cancel_left h)).2⟩

end Decimal
