import Mathlib.Data.List.Induction
import Mathlib.Tactic.Ring

/-!
# Numerals of bytes

The value of a sequence of bytes in network byte order, and the sequences that stand for
a number in either order.
-/

namespace ByteOrder

/-- The number that the bytes stand for, the first one being the most significant. -/
def beNat (bs : List UInt8) : Nat := bs.foldl (fun n b => n * 256 + b.toNat) 0

/-- The `k` bytes of a number, the least significant one first. -/
def leBytes : Nat → Nat → List UInt8
  | 0, _ => []
  | k + 1, n => UInt8.ofNat (n % 256) :: leBytes k (n / 256)

/-- The `k` bytes of a number in network byte order. -/
def beBytes (k n : Nat) : List UInt8 := (leBytes k n).reverse

@[simp] theorem beNat_nil : beNat [] = 0 := rfl

@[simp] theorem beNat_concat (bs : List UInt8) (b : UInt8) :
    beNat (bs ++ [b]) = beNat bs * 256 + b.toNat := by
  simp only [beNat, List.foldl_append, List.foldl_cons, List.foldl_nil]

theorem beNat_append (as bs : List UInt8) :
    beNat (as ++ bs) = beNat as * 256 ^ bs.length + beNat bs := by
  induction bs using List.reverseRecOn with
  | nil => simp
  | append_singleton bs b ih =>
    rw [← List.append_assoc, beNat_concat, beNat_concat, ih, List.length_append,
      List.length_singleton, Nat.pow_succ, Nat.add_mul]
    rw [Nat.mul_assoc, Nat.add_assoc]

@[simp] theorem length_leBytes (k n : Nat) : (leBytes k n).length = k := by
  induction k generalizing n with
  | zero => rfl
  | succ k ih => simp only [leBytes, List.length_cons, ih]

@[simp] theorem length_beBytes (k n : Nat) : (beBytes k n).length = k := by
  simp only [beBytes, List.length_reverse, length_leBytes]

theorem leBytes_add_mul (k m n : ℕ) :
    leBytes (k + m) n = leBytes k n ++ leBytes m (n / 256 ^ k) := by
  induction k generalizing n with
  | zero => simp [leBytes]
  | succ k ih =>
    rw [Nat.succ_add, leBytes, leBytes, ih, List.cons_append, Nat.div_div_eq_div_mul, Nat.pow_succ,
      Nat.mul_comm]

theorem leBytes_mod (k n : ℕ) : leBytes k (n % 256 ^ k) = leBytes k n := by
  induction k generalizing n with
  | zero => rfl
  | succ k ih =>
    have hlow : n % 256 ^ (k + 1) % 256 = n % 256 :=
      Nat.mod_mod_of_dvd n (Dvd.intro_left (256 ^ k) rfl)
    have hhigh : n % 256 ^ (k + 1) / 256 = n / 256 % 256 ^ k := by
      rw [Nat.pow_succ, Nat.mul_comm, Nat.mod_mul_right_div_self]
    rw [leBytes, leBytes, hlow, hhigh, ih]

/-- The bytes of a number that fits stand for it. -/
theorem beNat_beBytes {k n : Nat} (h : n < 256 ^ k) : beNat (beBytes k n) = n := by
  induction k generalizing n with
  | zero =>
    obtain rfl : n = 0 := by simpa using h
    rfl
  | succ k ih =>
    have hdiv : n / 256 < 256 ^ k := by
      rw [Nat.div_lt_iff_lt_mul (by decide)]
      exact h
    have hdigit : (UInt8.ofNat (n % 256)).toNat = n % 256 := by
      rw [UInt8.toNat_ofNat']
      exact Nat.mod_eq_of_lt (Nat.mod_lt _ (by decide))
    have hrest : beNat (beBytes k (n / 256)) = n / 256 := ih hdiv
    rw [beBytes, leBytes, List.reverse_cons, beNat_concat, hdigit]
    change beNat (beBytes k (n / 256)) * 256 + n % 256 = n
    rw [hrest]
    exact Nat.div_add_mod' n 256

theorem beNat_lt (bs : List UInt8) : beNat bs < 256 ^ bs.length := by
  induction bs using List.reverseRecOn with
  | nil => simp
  | append_singleton bs b ih =>
    have hb := b.toNat_lt
    rw [beNat_concat, List.length_append, List.length_singleton, Nat.pow_succ]
    omega

end ByteOrder
