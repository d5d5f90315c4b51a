import Mathlib.Data.List.Basic
import Mathlib.Tactic.Ring

/-!
# Byte buffers

A buffer is the list of its bytes. `splice` is the effect that a copy into a buffer
has on it: bytes that would land past its end are not part of it.
-/

namespace Bytes

/-- The buffer after `bs` has been copied to position `p`. -/
def splice (m : List UInt8) (p : Nat) (bs : List UInt8) : List UInt8 :=
  (m.take p ++ bs ++ m.drop (p + bs.length)).take m.length

/-- The bytes `m[p .. p + n)`. -/
def window (m : List UInt8) (p n : Nat) : List UInt8 := (m.drop p).take n

@[simp] theorem splice_nil (m : List UInt8) (p : Nat) : splice m p [] = m := by
  simp [splice]

theorem splice_eq {m : List UInt8} {p : Nat} {bs : List UInt8} (h : p + bs.length ≤ m.length) :
    splice m p bs = m.take p ++ bs ++ m.drop (p + bs.length) := by
  rw [splice, List.take_of_length_le]
  simp only [List.length_append, List.length_take, List.length_drop]
  omega

@[simp] theorem length_splice (m : List UInt8) (p : Nat) (bs : List UInt8) :
    (splice m p bs).length = m.length := by
  simp only [splice, List.length_take, List.length_append, List.length_drop]
  omega

@[simp] theorem window_zero (m : List UInt8) (p : Nat) : window m p 0 = [] := by
  simp [window]

theorem length_window {m : List UInt8} {p n : Nat} (h : p + n ≤ m.length) :
    (window m p n).length = n := by
  simp only [window, List.length_take, List.length_drop]
  omega

/-- Two adjacent windows form one. -/
theorem window_append (m : List UInt8) (p n k : Nat) :
    window m p n ++ window m (p + n) k = window m p (n + k) := by
  simp only [window, List.take_add, List.drop_drop]

/-- A copy leaves the bytes before it alone. -/
theorem take_splice {m : List UInt8} {p q : Nat} {bs : List UInt8}
    (h : p + bs.length ≤ m.length) (hq : q ≤ p) : (splice m p bs).take q = m.take q := by
  rw [splice_eq h, List.append_assoc, List.take_append_of_le_length (by simp; omega),
    List.take_take, Nat.min_eq_left hq]

/-- A copy leaves the bytes after it alone. -/
theorem drop_splice {m : List UInt8} {p q : Nat} {bs : List UInt8}
    (h : p + bs.length ≤ m.length) (hq : p + bs.length ≤ q) :
    (splice m p bs).drop q = m.drop q := by
  have hlen : (m.take p ++ bs).length = p + bs.length := by simp; omega
  rw [splice_eq h, List.drop_append, List.drop_eq_nil_of_le (by omega), List.nil_append,
    List.drop_drop, hlen]
  congr 1
  omega

/-- The bytes copied are there afterwards. -/
theorem window_splice {m : List UInt8} {p : Nat} {bs : List UInt8}
    (h : p + bs.length ≤ m.length) : window (splice m p bs) p bs.length = bs := by
  have hlen : (m.take p).length = p := by simp; omega
  rw [window, splice_eq h, List.append_assoc, List.drop_append_of_le_length (by omega),
    List.drop_eq_nil_of_le (by omega), List.nil_append]
  simp

/-- What a copy leaves up to its own end. -/
theorem take_splice_end {m : List UInt8} {p : Nat} {bs : List UInt8}
    (h : p + bs.length ≤ m.length) :
    (splice m p bs).take (p + bs.length) = m.take p ++ bs := by
  have hlen : (m.take p ++ bs).length = p + bs.length := by simp; omega
  rw [splice_eq h, ← hlen, List.take_left]

/-- A copy over as many bytes. -/
theorem splice_append {x y bs : List UInt8} (h : y.length = bs.length) (z : List UInt8) :
    splice (x ++ (y ++ z)) x.length bs = x ++ (bs ++ z) := by
  have hfit : x.length + bs.length ≤ (x ++ (y ++ z)).length := by
    simp only [List.length_append]
    omega
  rw [splice_eq hfit, List.take_left, List.append_assoc, ← h, ← List.drop_drop, List.drop_left,
    List.drop_left]

/-- A copy directly behind another one. -/
theorem splice_splice (m : List UInt8) (p : Nat) (x y : List UInt8) :
    splice (splice m p x) (p + x.length) y = splice m p (x ++ y) := by
  have hleft : splice (splice m p x) (p + x.length) y =
      ((splice m p x).take (p + x.length) ++ y ++
        (splice m p x).drop (p + x.length + y.length)).take (splice m p x).length := rfl
  have hright : splice m p (x ++ y) =
      (m.take p ++ x ++ (y ++ m.drop (p + x.length + y.length))).take m.length := by
    rw [splice, List.length_append, Nat.add_assoc]
    simp only [List.append_assoc]
  by_cases h : p + x.length ≤ m.length
  · rw [hleft, hright, take_splice_end h, drop_splice h (Nat.le_add_right _ _), length_splice]
    simp only [List.append_assoc]
  · -- the first copy already goes up to the end
    have hfull : m.length ≤ (m.take p ++ x).length := by
      rw [List.length_append, List.length_take]
      omega
    have hfirst : splice m p x = (m.take p ++ x).take m.length := by
      rw [splice, List.drop_eq_nil_of_le (Nat.le_of_not_le h), List.append_nil]
    have hlen : (splice m p x).length ≤ p + x.length := by
      rw [length_splice]
      omega
    rw [hleft, hright, List.take_of_length_le hlen, List.append_assoc, List.take_left,
      List.take_append_of_le_length hfull, hfirst]

theorem getElem?_splice_of_le {m : List UInt8} {p i : Nat} {bs : List UInt8}
    (h : p + bs.length ≤ i) : (splice m p bs)[i]? = m[i]? := by
  by_cases hi : i < m.length
  · have hdrop := drop_splice (m := m) (Nat.le_trans h (Nat.le_of_lt hi)) (Nat.le_refl _)
    have hget := congrArg (·[i - (p + bs.length)]?) hdrop
    simpa only [List.getElem?_drop, Nat.add_sub_of_le h] using hget
  · rw [List.getElem?_eq_none (by rw [length_splice]; omega), List.getElem?_eq_none (by omega)]

/-- A window lies within every prefix that reaches far enough. -/
theorem window_take {m : List UInt8} {p n k : Nat} (h : p + n ≤ k) :
    window (m.take k) p n = window m p n := by
  rw [window, window, List.drop_take, List.take_take, Nat.min_eq_left (by omega)]

end Bytes
