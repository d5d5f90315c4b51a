import Mathlib.Data.List.Basic

/-!
# Framing of a stream

A stream is cut into pieces by a test for a complete piece: a piece ends where the test
first holds of what has been read since the last one.

## Main definitions

- `Open`, `Piece` — read so far and not complete; complete just now
- `feed` — read on, one element at a time, up to the end of a piece
- `cut` — the pieces of a stream

## Main results

- `feed_spec` — what `feed` takes
- `cut_flatten` — a stream has one split into pieces
-/

namespace Framing

variable {α : Type*} {done : List α → Bool}

/-- Neither the elements read so far nor a part of them is complete. -/
def Open (done : List α → Bool) (p : List α) : Prop := ∀ q, q <+: p → done q = false

/-- Complete, and it was not before its last element. -/
def Piece (done : List α → Bool) (p : List α) : Prop :=
  done p = true ∧ ∀ q, q <+: p → q ≠ p → done q = false

/-- Read up to `n` elements behind `acc`, and stop where `acc` is complete: what has been
read then, and the rest. -/
def feed (done : List α → Bool) : Nat → List α → List α → List α × List α
  | 0, acc, l => (acc, l)
  | _ + 1, acc, [] => (acc, [])
  | n + 1, acc, b :: l => if done acc then (acc, b :: l) else feed done n (acc ++ [b]) l

/-- The complete pieces of a stream that goes on behind `acc`. -/
def cut (done : List α → Bool) : List α → List α → List (List α)
  | _, [] => []
  | acc, b :: l =>
    if done (acc ++ [b]) then (acc ++ [b]) :: cut done [] l else cut done (acc ++ [b]) l

theorem Open.nil (h : done [] = false) : Open done [] := by
  intro q hq
  rw [List.prefix_nil.mp hq]
  exact h

theorem Open.done_eq {p : List α} (h : Open done p) : done p = false := h p (List.prefix_refl p)

/-- The next element completes a piece, or leaves it open. -/
theorem Open.concat {p : List α} {b : α} (h : Open done p) :
    if done (p ++ [b]) then Piece done (p ++ [b]) else Open done (p ++ [b]) := by
  have hbefore : ∀ q, q <+: p ++ [b] → q ≠ p ++ [b] → done q = false := by
    intro q hq hne
    rcases List.prefix_concat_iff.mp hq with heq | hq
    · exact absurd heq hne
    · exact h q hq
  split
  · next hdone => exact ⟨hdone, hbefore⟩
  · next hdone =>
    intro q hq
    by_cases heq : q = p ++ [b]
    · rw [heq]
      exact Bool.eq_false_iff.mpr hdone
    · exact hbefore q hq heq

theorem Piece.ne_nil {p : List α} (h : Piece done p) (hnil : done [] = false) : p ≠ [] := by
  rintro rfl
  rw [h.1] at hnil
  exact absurd hnil (by decide)

theorem piece_of_take {p : List α} (hdone : done p = true)
    (h : ∀ k < p.length, done (p.take k) = false) : Piece done p := by
  refine ⟨hdone, fun q hq hne => ?_⟩
  have hlen : q.length < p.length := by
    by_contra hle
    exact hne (hq.eq_of_length_le (Nat.le_of_not_lt hle))
  rw [List.prefix_iff_eq_take.mp hq]
  exact h _ hlen

theorem length_feed_le (done : List α → Bool) (n : Nat) (acc l : List α) :
    (feed done n acc l).1.length ≤ acc.length + n := by
  induction n generalizing acc l with
  | zero => exact Nat.le_refl _
  | succ n ih =>
    cases l with
    | nil => exact Nat.le_add_right _ _
    | cons b l =>
      rw [feed]
      split
      · exact Nat.le_add_right _ _
      · have hle := ih (acc ++ [b]) l
        rw [List.length_append, List.length_singleton] at hle
        omega

/-- A stream begins with one piece at most. -/
theorem Piece.eq {p q l r : List α} (hp : Piece done p) (hq : Piece done q)
    (h : p ++ l = q ++ r) : p = q := by
  rcases List.prefix_or_prefix_of_prefix (List.prefix_append p l) (h ▸ List.prefix_append q r) with
    hpq | hqp
  · by_contra hne
    have hdone := hq.2 p hpq hne
    rw [hp.1] at hdone
    exact absurd hdone (by decide)
  · by_contra hne
    have hdone := hp.2 q hqp (Ne.symm hne)
    rw [hq.1] at hdone
    exact absurd hdone (by decide)

/-- What is open at the beginning of a stream is shorter than the first piece. -/
theorem Open.length_lt {p q l r : List α} (hp : Open done p) (hq : Piece done q)
    (h : p ++ l = q ++ r) : p.length < q.length := by
  by_contra hle
  have hqp : q <+: p := List.prefix_of_prefix_length_le (h ▸ List.prefix_append q r)
    (List.prefix_append p l) (Nat.le_of_not_lt hle)
  have hdone := hp q hqp
  rw [hq.1] at hdone
  exact absurd hdone (by decide)

/-- What is read goes on where it stopped, and is open or a piece; what is open at the end
has stopped because nothing more was to be read. -/
theorem feed_spec {n : Nat} {acc l : List α} (h : Open done acc) :
    (feed done n acc l).1 ++ (feed done n acc l).2 = acc ++ l ∧
      (Piece done (feed done n acc l).1 ∨
        Open done (feed done n acc l).1 ∧ (feed done n acc l).1 = acc ++ l.take n) := by
  induction n generalizing acc l with
  | zero => exact ⟨rfl, .inr ⟨h, by simp [feed]⟩⟩
  | succ n ih =>
    cases l with
    | nil => exact ⟨rfl, .inr ⟨h, by simp [feed]⟩⟩
    | cons b l =>
      rw [feed, h.done_eq, if_neg Bool.false_ne_true]
      have hnext := h.concat (b := b)
      split at hnext
      · next hdone =>
        have hstop : feed done n (acc ++ [b]) l = (acc ++ [b], l) := by
          cases n with
          | zero => rfl
          | succ n =>
            cases l with
            | nil => rfl
            | cons c l => rw [feed, if_pos hdone]
        rw [hstop]
        exact ⟨List.append_assoc .., .inl hnext⟩
      · obtain ⟨happend, hres⟩ := ih (l := l) hnext
        refine ⟨happend.trans (List.append_assoc ..), ?_⟩
        rw [List.take_succ_cons, List.append_cons acc b (l.take n)]
        exact hres

/-- The first piece of a stream. -/
theorem cut_piece {acc p l : List α} (h : Piece done (acc ++ p)) (hp : p ≠ []) :
    cut done acc (p ++ l) = (acc ++ p) :: cut done [] l := by
  induction p generalizing acc with
  | nil => exact absurd rfl hp
  | cons b p ih =>
    rw [List.cons_append, cut]
    by_cases hpnil : p = []
    · subst hpnil
      rw [if_pos h.1, List.nil_append]
    · have hne : acc ++ [b] ≠ acc ++ b :: p := by
        intro heq
        have hlen := congrArg List.length heq
        simp only [List.length_append, List.length_cons, List.length_nil] at hlen
        exact hpnil (List.length_eq_zero_iff.mp (by omega))
      have hsplit : acc ++ b :: p = acc ++ [b] ++ p := List.append_cons ..
      have hdone : done (acc ++ [b]) = false := h.2 _ (hsplit ▸ List.prefix_append ..) hne
      rw [hdone, if_neg Bool.false_ne_true, hsplit]
      exact ih (hsplit ▸ h) hpnil

/-- A stream has one split: the pieces that it begins with are the first ones of its cut. -/
theorem cut_flatten (hnil : done [] = false) {ps : List (List α)} (h : ∀ p ∈ ps, Piece done p)
    (l : List α) : cut done [] (ps.flatten ++ l) = ps ++ cut done [] l := by
  induction ps with
  | nil => rfl
  | cons p ps ih =>
    have hp := h p (List.mem_cons_self ..)
    have hp' : Piece done ([] ++ p) := hp
    rw [List.flatten_cons, List.append_assoc, cut_piece hp' (hp.ne_nil hnil),
      ih fun q hq => h q (List.mem_cons_of_mem _ hq)]
    rfl

end Framing
