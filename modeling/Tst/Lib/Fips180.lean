import Tst.Lib.BlockStream
import Tst.Lib.ByteOrder

/-!
# The secure hash algorithm SHA-1

SHA-1 as the standard FIPS 180 defines it: the padding of a message, the message schedule of
80 words, the 80 steps over five words, and the chain over the blocks of 64 bytes.

## Main definitions

- `schedule` — the words `W 0`, …, `W 79` of a block
- `step`, `compress` — one step, and a block
- `pad` — a message filled up to full blocks
- `sha1` — the digest of a message
-/

namespace Fips180

open ByteOrder BlockStream

/-- Five words: a hash value, or the working variables of a block. -/
structure Words where
  a : UInt32
  b : UInt32
  c : UInt32
  d : UInt32
  e : UInt32
  deriving DecidableEq, Repr

/-- `ROTL n x`. -/
def rotl (n : ℕ) (x : UInt32) : UInt32 := ⟨x.toBitVec.rotateLeft n⟩

def ch (x y z : UInt32) : UInt32 := (x &&& y) ^^^ (~~~x &&& z)

def parity (x y z : UInt32) : UInt32 := x ^^^ y ^^^ z

def maj (x y z : UInt32) : UInt32 := (x &&& y) ^^^ (x &&& z) ^^^ (y &&& z)

/-- The function of step `t`. -/
def f (t : ℕ) : UInt32 → UInt32 → UInt32 → UInt32 :=
  if t < 20 then ch else if t < 40 then parity else if t < 60 then maj else parity

/-- The constant of step `t`. -/
def k (t : ℕ) : UInt32 :=
  if t < 20 then 0x5A827999 else if t < 40 then 0x6ED9EBA1
  else if t < 60 then 0x8F1BBCDC else 0xCA62C1D6

/-- The message schedule of a block with the words `m 0`, …, `m 15`. -/
def schedule (m : ℕ → UInt32) (t : ℕ) : UInt32 :=
  if _h : t < 16 then m t
  else rotl 1 (schedule m (t - 3) ^^^ schedule m (t - 8) ^^^ schedule m (t - 14) ^^^
    schedule m (t - 16))
  termination_by t

/-- Step `t` with the word `w` of the schedule. -/
def step (w : UInt32) (t : ℕ) (v : Words) : Words where
  a := rotl 5 v.a + f t v.b v.c v.d + v.e + k t + w
  b := v.a
  c := rotl 30 v.b
  d := v.c
  e := v.d

/-- The first `t` steps. -/
def steps (m : ℕ → UInt32) (v : Words) : ℕ → Words
  | 0 => v
  | t + 1 => step (schedule m t) t (steps m v t)

/-- Word `i` of a block. -/
def word (block : List UInt8) (i : ℕ) : UInt32 :=
  UInt32.ofNat (beNat ((block.drop (4 * i)).take 4))

/-- The hash value after a block. -/
def compress (h : Words) (block : List UInt8) : Words :=
  let v := steps (word block) h 80
  { a := h.a + v.a, b := h.b + v.b, c := h.c + v.c, d := h.d + v.d, e := h.e + v.e }

/-- The initial hash value. -/
def initial : Words where
  a := 0x67452301
  b := 0xEFCDAB89
  c := 0x98BADCFE
  d := 0x10325476
  e := 0xC3D2E1F0

/-- The number of zero bytes that fill a message up. -/
def fill (len : ℕ) : ℕ := (119 - len % 64) % 64

/-- A message, the bit 1, zeros, and the length in bits. -/
def pad (msg : List UInt8) : List UInt8 :=
  msg ++ [0x80] ++ List.replicate (fill msg.length) 0 ++ beBytes 8 (8 * msg.length)

/-- The bytes of a hash value. -/
def Words.bytes (h : Words) : List UInt8 :=
  [h.a, h.b, h.c, h.d, h.e].flatMap fun w => beBytes 4 w.toNat

/-- The digest of a message. -/
def sha1 (msg : List UInt8) : List UInt8 := ((blocks 64 (pad msg)).foldl compress initial).bytes

theorem schedule_of_lt {m : ℕ → UInt32} {t : ℕ} (h : t < 16) : schedule m t = m t := by
  rw [schedule, dif_pos h]

theorem schedule_of_le {m : ℕ → UInt32} {t : ℕ} (h : 16 ≤ t) :
    schedule m t = rotl 1 (schedule m (t - 3) ^^^ schedule m (t - 8) ^^^ schedule m (t - 14) ^^^
      schedule m (t - 16)) := by
  rw [schedule, dif_neg (by omega)]

/-- Zeros end where the length field begins. -/
theorem fill_spec (len : ℕ) : (len + 1 + fill len) % 64 = 56 := by
  unfold fill
  omega

theorem fill_lt (len : ℕ) : fill len < 64 := Nat.mod_lt _ (by decide)

/-- A padded message is made of full blocks. -/
theorem length_pad (msg : List UInt8) : ∃ n, (pad msg).length = 64 * n := by
  have hfill := fill_spec msg.length
  refine ⟨(msg.length + 1 + fill msg.length) / 64 + 1, ?_⟩
  simp only [pad, List.length_append, List.length_singleton, List.length_replicate,
    length_beBytes]
  omega

/-- The blocks of a padded message are what a stream of its bytes absorbs. -/
theorem absorb_pad (msg : List UInt8) :
    absorb 64 compress (initial, []) (pad msg) =
      ((blocks 64 (pad msg)).foldl compress initial, []) := by
  obtain ⟨n, hn⟩ := length_pad msg
  exact absorb_eq_foldl (by decide) initial hn

end Fips180
