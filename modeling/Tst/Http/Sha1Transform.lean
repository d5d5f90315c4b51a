import Mathlib.Tactic.IntervalCases
import Tst.Http.Sha1

/-!
# The rounds of SHA-1

The eighty rounds of `SHA1Transform` against the steps of the standard. Round `t` calls the
five variables by names that have moved on by `t` places, and the sixteen words of the block
hold the last sixteen words of the message schedule.

## Main definitions

- `Sha1Work.view` — the working variables of the standard before round `t`
- `Sha1Work.Tracks` — what holds before round `t`

## Main results

- `sha1Rounds_eq` — the rounds as they are written out
- `Sha1Work.Tracks.round` — what one round keeps
- `sha1Transform_eq` — `SHA1Transform` takes in a block
-/

namespace Tst

open Bytes ByteOrder Fips180

/-! ## Words -/

theorem ofNat_concat (n : ℕ) (b : UInt8) :
    UInt32.ofNat (n * 256 + b.toNat) = UInt32.ofNat n <<< 8 ||| b.toUInt32 := by
  have hb : b.toNat < 2 ^ 8 := b.toNat_lt
  apply UInt32.toNat_inj.mp
  calc (UInt32.ofNat (n * 256 + b.toNat)).toNat
      = (n % 2 ^ 24) <<< 8 + b.toNat := by
        rw [UInt32.toNat_ofNat', Nat.shiftLeft_eq]
        omega
    _ = (n % 2 ^ 24) <<< 8 ||| b.toNat := Nat.shiftLeft_add_eq_or_of_lt hb _
    _ = (UInt32.ofNat n <<< 8 ||| b.toUInt32).toNat := by
        rw [UInt32.toNat_or, UInt32.toNat_shiftLeft, UInt32.toNat_ofNat', UInt8.toNat_toUInt32]
        congr 1
        simp only [Nat.shiftLeft_eq, UInt32.reduceToNat, Nat.reduceMod, Nat.reducePow]
        omega

/-- The bytes of a word, shifted into place. -/
theorem ofNat_beNat (b₀ b₁ b₂ b₃ : UInt8) :
    UInt32.ofNat (beNat [b₀, b₁, b₂, b₃]) =
      ((b₀.toUInt32 <<< 8 ||| b₁.toUInt32) <<< 8 ||| b₂.toUInt32) <<< 8 ||| b₃.toUInt32 := by
  simp only [beNat, List.foldl_cons, List.foldl_nil, ofNat_concat]
  simp

/-- The two rotations and masks of `blk0` turn the bytes of a word around. -/
theorem swap_eq (b₀ b₁ b₂ b₃ : UInt8) :
    ((rol (UInt32.ofNat (beNat [b₃, b₂, b₁, b₀])) 24 &&& 0xFF00FF00) |||
        (rol (UInt32.ofNat (beNat [b₃, b₂, b₁, b₀])) 8 &&& 0x00FF00FF)) =
      UInt32.ofNat (beNat [b₀, b₁, b₂, b₃]) := by
  rw [ofNat_beNat, ofNat_beNat]
  apply UInt32.eq_of_toBitVec_eq
  ext i hi
  simp [rol]
  interval_cases i <;> simp

theorem rol_one (x : UInt32) : rol x 1 = rotl 1 x := by
  apply UInt32.eq_of_toBitVec_eq
  ext i hi
  simp [rol, rotl, BitVec.getElem_rotateLeft]
  grind

theorem rol_five (x : UInt32) : rol x 5 = rotl 5 x := by
  apply UInt32.eq_of_toBitVec_eq
  ext i hi
  simp [rol, rotl, BitVec.getElem_rotateLeft]
  grind

theorem rol_thirty (x : UInt32) : rol x 30 = rotl 30 x := by
  apply UInt32.eq_of_toBitVec_eq
  ext i hi
  simp [rol, rotl, BitVec.getElem_rotateLeft]
  grind

/-- `R0` and `R1` choose with one operation less. -/
theorem ch_eq (w x y : UInt32) : (w &&& (x ^^^ y)) ^^^ y = ch w x y := by
  apply UInt32.eq_of_toBitVec_eq
  ext i hi
  simp only [ch, UInt32.toBitVec_xor, UInt32.toBitVec_and, UInt32.toBitVec_not,
    BitVec.getElem_xor, BitVec.getElem_and, BitVec.getElem_not]
  cases w.toBitVec[i] <;> cases x.toBitVec[i] <;> cases y.toBitVec[i] <;> rfl

/-- `R3` takes the majority with one operation less. -/
theorem maj_eq (w x y : UInt32) : ((w ||| x) &&& y) ||| (w &&& x) = maj w x y := by
  apply UInt32.eq_of_toBitVec_eq
  ext i hi
  simp only [maj, UInt32.toBitVec_xor, UInt32.toBitVec_and, UInt32.toBitVec_or,
    BitVec.getElem_xor, BitVec.getElem_and, BitVec.getElem_or]
  cases w.toBitVec[i] <;> cases x.toBitVec[i] <;> cases y.toBitVec[i] <;> rfl

/-! ## Rounds -/

/-- The variables in their order, again and again. -/
def Sha1Var.nth (n : ℕ) : Sha1Var :=
  match n % 5 with
  | 0 => a
  | 1 => b
  | 2 => c
  | 3 => d
  | _ => e

/-- Round `t`: every name is four places, or one place back, from that of the round before. -/
def Sha1Round.nth (t : ℕ) : Sha1Round :=
  let name (j : ℕ) : Sha1Var := .nth (4 * t + j)
  if t < 16 then r0 (name 0) (name 1) (name 2) (name 3) (name 4) t
  else if t < 20 then r1 (name 0) (name 1) (name 2) (name 3) (name 4) t
  else if t < 40 then r2 (name 0) (name 1) (name 2) (name 3) (name 4) t
  else if t < 60 then r3 (name 0) (name 1) (name 2) (name 3) (name 4) t
  else r4 (name 0) (name 1) (name 2) (name 3) (name 4) t

theorem sha1Rounds_eq : sha1Rounds = (List.range 80).map Sha1Round.nth := by
  decide +kernel

namespace Sha1Work

/-- The word that round `t` stores and adds. -/
def newWord (p : Sha1Work) (t : ℕ) : UInt32 := if t < 16 then p.blk0 t else p.blk t

/-- Every round is the same but for its function, its constant and its word. -/
theorem run_nth (p : Sha1Work) (t : ℕ) :
    (Sha1Round.nth t).run p = p.round (f t) (p.newWord t) (k t) (.nth (4 * t + 0))
      (.nth (4 * t + 1)) (.nth (4 * t + 2)) (.nth (4 * t + 3)) (.nth (4 * t + 4)) t := by
  have hch : (fun w x y : UInt32 => (w &&& (x ^^^ y)) ^^^ y) = ch := by
    funext w x y
    exact ch_eq w x y
  have hmaj : (fun w x y : UInt32 => ((w ||| x) &&& y) ||| (w &&& x)) = maj := by
    funext w x y
    exact maj_eq w x y
  have hparity : (fun w x y : UInt32 => w ^^^ x ^^^ y) = parity := rfl
  simp only [Sha1Round.nth, newWord, f, k]
  split
  · next h => simp only [Sha1Round.run, hch, if_pos (show t < 20 by omega)]
  · split
    · next h => simp only [Sha1Round.run, hch]
    · split
      · simp only [Sha1Round.run, hparity]
      · split
        · simp only [Sha1Round.run, hmaj]
        · simp only [Sha1Round.run, hparity]

/-- The working variables of the standard before round `t`. -/
def view (p : Sha1Work) (t : ℕ) : Words where
  a := p.get (.nth (4 * t + 0))
  b := p.get (.nth (4 * t + 1))
  c := p.get (.nth (4 * t + 2))
  d := p.get (.nth (4 * t + 3))
  e := p.get (.nth (4 * t + 4))

/-- A round is a step of the standard, under the names of the next round. -/
theorem view_round (p : Sha1Work) (g : UInt32 → UInt32 → UInt32 → UInt32) (word k : UInt32)
    (t : ℕ) :
    (p.round g word k (.nth (4 * t + 0)) (.nth (4 * t + 1)) (.nth (4 * t + 2))
        (.nth (4 * t + 3)) (.nth (4 * t + 4)) t).view (t + 1) =
      { a := (p.view t).e + (g (p.view t).b (p.view t).c (p.view t).d + word + k +
          rol (p.view t).a 5)
        b := (p.view t).a
        c := rol (p.view t).b 30
        d := (p.view t).c
        e := (p.view t).d } := by
  obtain ⟨q, r, hr, rfl⟩ : ∃ q r, r < 5 ∧ t = 5 * q + r :=
    ⟨t / 5, t % 5, Nat.mod_lt _ (by decide), (Nat.div_add_mod t 5).symm⟩
  have hnth : ∀ n, Sha1Var.nth (4 * (5 * q + r) + n) = .nth (4 * r + n) := by
    intro n
    simp only [Sha1Var.nth]
    rw [show 4 * (5 * q + r) + n = 5 * (4 * q) + (4 * r + n) by ring, Nat.mul_add_mod]
  have hnext : ∀ n, Sha1Var.nth (4 * (5 * q + r + 1) + n) = .nth (4 * (r + 1) + n) := by
    intro n
    simp only [Sha1Var.nth]
    rw [show 4 * (5 * q + r + 1) + n = 5 * (4 * q) + (4 * (r + 1) + n) by ring, Nat.mul_add_mod]
  simp only [view, hnth, hnext]
  interval_cases r <;> rfl

@[simp] theorem block_round (p : Sha1Work) (g : UInt32 → UInt32 → UInt32 → UInt32)
    (word k : UInt32) (v w x y z : Sha1Var) (i : ℕ) :
    (p.round g word k v w x y z i).block = (p.setWord i word).block := by
  cases w <;> cases z <;> rfl

/-- What holds before round `t` of a block: the working variables have come through the
steps of the standard, the latest words of its schedule stand in `block`, and the words that
have not been used yet are as they were copied. -/
structure Tracks (buffer : List UInt8) (h : Words) (t : ℕ) (p : Sha1Work) : Prop where
  vars : p.view t = steps (word buffer) h t
  latest : ∀ s < t, t ≤ s + 16 → p.block.get (.ofNat 16 s) = schedule (word buffer) s
  unused : ∀ i : Fin 16, t ≤ i → p.block.get i = (blockWords buffer).get i

/-- The word of a round is that of the schedule. -/
theorem Tracks.newWord_eq {buffer : List UInt8} {h : Words} {t : ℕ} {p : Sha1Work}
    (hbuffer : buffer.length = 64) (ht : p.Tracks buffer h t) :
    p.newWord t = schedule (word buffer) t := by
  rw [newWord]
  split
  · next hlt =>
    -- the word is still as it was copied, and its bytes are turned around
    have hraw : p.block[t] = (blockWords buffer)[t] := ht.unused ⟨t, hlt⟩ (Nat.le_refl t)
    obtain ⟨b₀, b₁, b₂, b₃, hbytes⟩ : ∃ b₀ b₁ b₂ b₃, window buffer (4 * t) 4 = [b₀, b₁, b₂, b₃] := by
      have hlen : (window buffer (4 * t) 4).length = 4 := length_window (by omega)
      generalize window buffer (4 * t) 4 = bs at hlen ⊢
      rcases bs with _ | ⟨b₀, _ | ⟨b₁, _ | ⟨b₂, _ | ⟨b₃, _ | _⟩⟩⟩⟩
      case cons.cons.cons.cons.nil => exact ⟨b₀, b₁, b₂, b₃, rfl⟩
      all_goals simp at hlen
    have hword : p.block[t % 16] = UInt32.ofNat (beNat [b₃, b₂, b₁, b₀]) := by
      simp only [Nat.mod_eq_of_lt hlt]
      rw [hraw, blockWords, Vector.getElem_ofFn, hbytes]
      rfl
    rw [blk0, hword, swap_eq, schedule_of_lt hlt, word, ← window, hbytes]
  · next hge =>
    have hge : 16 ≤ t := Nat.le_of_not_lt hge
    have h3 : p.block[(t + 13) % 16] = schedule (word buffer) (t - 3) := by
      simp only [show (t + 13) % 16 = (t - 3) % 16 by omega]
      exact ht.latest _ (by omega) (by omega)
    have h8 : p.block[(t + 8) % 16] = schedule (word buffer) (t - 8) := by
      simp only [show (t + 8) % 16 = (t - 8) % 16 by omega]
      exact ht.latest _ (by omega) (by omega)
    have h14 : p.block[(t + 2) % 16] = schedule (word buffer) (t - 14) := by
      simp only [show (t + 2) % 16 = (t - 14) % 16 by omega]
      exact ht.latest _ (by omega) (by omega)
    have h16 : p.block[t % 16] = schedule (word buffer) (t - 16) := by
      simp only [show t % 16 = (t - 16) % 16 by omega]
      exact ht.latest _ (by omega) (by omega)
    rw [blk, h3, h8, h14, h16, rol_one, schedule_of_le hge]

/-- One round. -/
theorem Tracks.round {buffer : List UInt8} {h : Words} {t : ℕ} {p : Sha1Work}
    (hbuffer : buffer.length = 64) (ht : p.Tracks buffer h t) :
    ((Sha1Round.nth t).run p).Tracks buffer h (t + 1) := by
  have hnew := ht.newWord_eq hbuffer
  rw [run_nth]
  constructor
  · rw [view_round, ht.vars, hnew, rol_five, rol_thirty, steps, step]
    congr 1
    ac_rfl
  · intro s hs hlast
    rw [block_round]
    change (p.block.set (t % 16) (p.newWord t))[s % 16] = _
    by_cases hst : s = t
    · subst hst
      rw [Vector.getElem_set_self, hnew]
    · have hne : t % 16 ≠ s % 16 := by omega
      rw [Vector.getElem_set_ne _ _ hne]
      exact ht.latest s (by omega) (by omega)
  · intro i hi
    have hne : t % 16 ≠ i := by omega
    rw [block_round]
    change (p.block.set (t % 16) (p.newWord t))[i.val] = _
    rw [Vector.getElem_set_ne _ _ hne]
    exact ht.unused i (by omega)

/-- The first `n` rounds. -/
theorem Tracks.rounds {buffer : List UInt8} {h : Words} {p : Sha1Work}
    (hbuffer : buffer.length = 64) (hp : p.Tracks buffer h 0) (n : ℕ) :
    (((List.range n).map Sha1Round.nth).foldl Sha1Round.run p).Tracks buffer h n := by
  induction n with
  | zero => exact hp
  | succ n ih =>
    rw [List.range_succ, List.map_append, List.foldl_append]
    exact ih.round hbuffer

end Sha1Work

/-- The hash value in a context. -/
def Sha1State.words (state : Sha1State) : Words where
  a := state.get 0
  b := state.get 1
  c := state.get 2
  d := state.get 3
  e := state.get 4

theorem Sha1State.words_mk (a b c d e : UInt32) :
    Sha1State.words #v[a, b, c, d, e] = ⟨a, b, c, d, e⟩ := rfl

/-- `SHA1Transform` takes in a block as the standard says. -/
theorem words_sha1Transform (state : Sha1State) {buffer : List UInt8}
    (hbuffer : buffer.length = 64) :
    (sha1Transform state buffer).words = compress state.words buffer := by
  let p : Sha1Work :=
    { a := state[0], b := state[1], c := state[2], d := state[3], e := state[4]
      block := blockWords buffer }
  have hp : p.Tracks buffer state.words 0 :=
    { vars := rfl
      latest := fun s hs => absurd hs (Nat.not_lt_zero s)
      unused := fun i _ => rfl }
  have hend := (hp.rounds hbuffer 80).vars
  rw [← sha1Rounds_eq] at hend
  rw [compress, ← hend, sha1Transform, Sha1State.words_mk]
  generalize sha1Rounds.foldl Sha1Round.run p = q
  rfl

end Tst
