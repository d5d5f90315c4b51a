import Mathlib.Data.List.Basic

/-!
# Streams absorbed in blocks

A state takes in a stream block by block. Elements that do not fill a block yet wait in a
buffer, so the stream may arrive in pieces of any length.

## Main definitions

- `push`, `absorb` — one more element, or a piece of the stream
- `blocks` — the full blocks of a stream

## Main results

- `absorb_append` — the cut into pieces does not matter
- `absorb_fill`, `absorb_block` — a piece that ends where a block ends
- `absorb_eq_foldl` — a stream of full blocks
-/

namespace BlockStream

variable {σ α : Type*} {n : ℕ} {f : σ → List α → σ}

/-- One more element. It waits until it completes a block of `n` elements. -/
def push (n : ℕ) (f : σ → List α → σ) (st : σ × List α) (x : α) : σ × List α :=
  if st.2.length + 1 < n then (st.1, st.2 ++ [x]) else (f st.1 (st.2 ++ [x]), [])

/-- A piece of the stream. -/
def absorb (n : ℕ) (f : σ → List α → σ) (st : σ × List α) (xs : List α) : σ × List α :=
  xs.foldl (push n f) st

/-- The full blocks of `n` elements at the front of a list. -/
def blocks (n : ℕ) (xs : List α) : List (List α) :=
  (List.range (xs.length / n)).map fun i => (xs.drop (n * i)).take n

@[simp] theorem absorb_nil (st : σ × List α) : absorb n f st [] = st := rfl

theorem absorb_cons (st : σ × List α) (x : α) (xs : List α) :
    absorb n f st (x :: xs) = absorb n f (push n f st x) xs := rfl

theorem absorb_append (st : σ × List α) (xs ys : List α) :
    absorb n f st (xs ++ ys) = absorb n f (absorb n f st xs) ys := by
  simp only [absorb, List.foldl_append]

/-- A piece that leaves the block open waits in the buffer. -/
theorem absorb_wait {s : σ} {buf xs : List α} (h : buf.length + xs.length < n) :
    absorb n f (s, buf) xs = (s, buf ++ xs) := by
  induction xs generalizing buf with
  | nil => simp
  | cons x xs ih =>
    rw [List.length_cons] at h
    have hpush : push n f (s, buf) x = (s, buf ++ [x]) := by
      rw [push, if_pos (by simp only; omega)]
    have hlen : (buf ++ [x]).length + xs.length < n := by
      rw [List.length_append, List.length_singleton]
      omega
    rw [absorb_cons, hpush, ih hlen, List.append_assoc, List.singleton_append]

/-- A piece that fills the block up to its last element. -/
theorem absorb_fill {s : σ} {buf xs : List α} (hbuf : buf.length < n)
    (h : buf.length + xs.length = n) : absorb n f (s, buf) xs = (f s (buf ++ xs), []) := by
  obtain ⟨front, last, rfl⟩ : ∃ front last, xs = front ++ [last] := by
    rcases List.eq_nil_or_concat' xs with rfl | ⟨front, last, hxs⟩
    · rw [List.length_nil] at h
      omega
    · exact ⟨front, last, hxs⟩
  rw [List.length_append, List.length_singleton] at h
  have hfront : absorb n f (s, buf) front = (s, buf ++ front) := absorb_wait (by omega)
  rw [absorb_append, hfront, absorb_cons, absorb_nil, push,
    if_neg (by rw [List.length_append]; omega), List.append_assoc]

theorem absorb_block {s : σ} {b : List α} (hn : 0 < n) (h : b.length = n) :
    absorb n f (s, []) b = (f s b, []) := by
  rw [absorb_fill (by simpa using hn) (by simpa using h), List.nil_append]

/-- What waits is less than a block, and as long as the stream says. -/
theorem length_absorb {st : σ × List α} (h : st.2.length < n) (xs : List α) :
    (absorb n f st xs).2.length = (st.2.length + xs.length) % n := by
  induction xs generalizing st with
  | nil => rw [absorb_nil, List.length_nil, Nat.add_zero, Nat.mod_eq_of_lt h]
  | cons x xs ih =>
    rw [absorb_cons, push, List.length_cons]
    split
    · next hopen =>
      rw [ih (by rw [List.length_append]; exact hopen), List.length_append,
        List.length_singleton]
      congr 1
      omega
    · next hfull =>
      rw [ih (by rw [List.length_nil]; omega), List.length_nil,
        show st.2.length + (xs.length + 1) = n + xs.length by omega, Nat.add_mod_left,
        Nat.zero_add]

theorem blocks_cons {b : List α} (hn : 0 < n) (h : b.length = n) (xs : List α) :
    blocks n (b ++ xs) = b :: blocks n xs := by
  have hcount : (b ++ xs).length / n = xs.length / n + 1 := by
    rw [List.length_append, h, Nat.add_div_left _ hn]
  rw [blocks, hcount, List.range_succ_eq_map, List.map_cons, List.map_map]
  congr 1
  · rw [Nat.mul_zero, List.drop_zero, ← h, List.take_left]
  · apply List.map_congr_left
    intro i _
    simp only [Function.comp, Nat.succ_eq_add_one, Nat.mul_add, Nat.mul_one]
    rw [Nat.add_comm (n * i) n, ← List.drop_drop, ← h, List.drop_left]

theorem blocks_nil : blocks n ([] : List α) = [] := by
  simp [blocks]

/-- A stream of `k` full blocks. -/
theorem absorb_eq_foldl (hn : 0 < n) (s : σ) {k : ℕ} {xs : List α} (h : xs.length = n * k) :
    absorb n f (s, []) xs = ((blocks n xs).foldl f s, []) := by
  induction k generalizing s xs with
  | zero =>
    obtain rfl : xs = [] := List.eq_nil_of_length_eq_zero (by simpa using h)
    rw [absorb_nil, blocks_nil, List.foldl_nil]
  | succ k ih =>
    rw [Nat.mul_succ] at h
    have hfirst : (xs.take n).length = n := by
      rw [List.length_take]
      omega
    have hrest : (xs.drop n).length = n * k := by
      rw [List.length_drop]
      omega
    rw [← List.take_append_drop n xs, absorb_append, absorb_block hn hfirst, ih _ hrest,
      blocks_cons hn hfirst, List.foldl_cons]

end BlockStream
