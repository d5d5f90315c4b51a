import Tst.Lib.CString
import Tst.Lib.Fips180

/-!
# SHA-1 in C

The functions of `sha1.c`. A context keeps the hash value, the number of bits taken in and
the bytes of a block that is not complete. The rounds are written out one by one: instead of
moving the working variables on, each round names them in another order, and the message
schedule overwrites the sixteen words of the block.

## Main definitions

- `sha1Transform` — `SHA1Transform`, with its macros `blk0`, `blk` and `R0` to `R4`
- `Sha1Ctx`, `sha1Init`, `sha1Update`, `sha1Final` — the context and what is done with it
- `sha1` — `SHA1`, the digest of a text
-/

namespace Tst

open Bytes ByteOrder CString

/-- `rol(value, bits)`. -/
def rol (value bits : UInt32) : UInt32 := value <<< bits ||| value >>> (32 - bits)

/-- The variables of `SHA1Transform`, by their names. -/
inductive Sha1Var
  | a | b | c | d | e
  deriving DecidableEq, Repr

/-- The variables `a` to `e` of `SHA1Transform`, and its copy `block->l` of the block. -/
structure Sha1Work where
  a : UInt32
  b : UInt32
  c : UInt32
  d : UInt32
  e : UInt32
  block : Vector UInt32 16
  deriving DecidableEq

namespace Sha1Work

/-- The value of a variable. -/
def get (p : Sha1Work) : Sha1Var → UInt32
  | .a => p.a
  | .b => p.b
  | .c => p.c
  | .d => p.d
  | .e => p.e

/-- An assignment to a variable. -/
def set (p : Sha1Work) (x : Sha1Var) (value : UInt32) : Sha1Work :=
  match x with
  | .a => { p with a := value }
  | .b => { p with b := value }
  | .c => { p with c := value }
  | .d => { p with d := value }
  | .e => { p with e := value }

/-- An assignment to `block->l[i & 15]`. -/
def setWord (p : Sha1Work) (i : Nat) (value : UInt32) : Sha1Work :=
  { p with block := p.block.set (i % 16) value }

/-- The value that `blk0(i)` stores: the bytes of a word in the opposite order. -/
def blk0 (p : Sha1Work) (i : Nat) : UInt32 :=
  (rol p.block[i % 16] 24 &&& 0xFF00FF00) ||| (rol p.block[i % 16] 8 &&& 0x00FF00FF)

/-- The value that `blk(i)` stores. -/
def blk (p : Sha1Work) (i : Nat) : UInt32 :=
  rol (p.block[(i + 13) % 16] ^^^ p.block[(i + 8) % 16] ^^^ p.block[(i + 2) % 16] ^^^
    p.block[i % 16]) 1

/-- What the macros `R0` to `R4` have in common: the function `f` of `w`, `x` and `y`, the
word that is stored and added, and the constant. -/
def round (f : UInt32 → UInt32 → UInt32 → UInt32) (word k : UInt32) (v w x y z : Sha1Var)
    (i : Nat) (p : Sha1Work) : Sha1Work :=
  let p := p.setWord i word
  let p := p.set z (p.get z + (f (p.get w) (p.get x) (p.get y) + word + k + rol (p.get v) 5))
  p.set w (rol (p.get w) 30)

end Sha1Work

/-- The calls of the macros `R0` to `R4`. -/
inductive Sha1Round
  | r0 (v w x y z : Sha1Var) (i : Nat)
  | r1 (v w x y z : Sha1Var) (i : Nat)
  | r2 (v w x y z : Sha1Var) (i : Nat)
  | r3 (v w x y z : Sha1Var) (i : Nat)
  | r4 (v w x y z : Sha1Var) (i : Nat)
  deriving DecidableEq

/-- A macro is carried out. -/
def Sha1Round.run (p : Sha1Work) : Sha1Round → Sha1Work
  | r0 v w x y z i =>
    p.round (fun w x y => (w &&& (x ^^^ y)) ^^^ y) (p.blk0 i) 0x5A827999 v w x y z i
  | r1 v w x y z i =>
    p.round (fun w x y => (w &&& (x ^^^ y)) ^^^ y) (p.blk i) 0x5A827999 v w x y z i
  | r2 v w x y z i => p.round (fun w x y => w ^^^ x ^^^ y) (p.blk i) 0x6ED9EBA1 v w x y z i
  | r3 v w x y z i =>
    p.round (fun w x y => ((w ||| x) &&& y) ||| (w &&& x)) (p.blk i) 0x8F1BBCDC v w x y z i
  | r4 v w x y z i => p.round (fun w x y => w ^^^ x ^^^ y) (p.blk i) 0xCA62C1D6 v w x y z i

/-- The rounds of `SHA1Transform`. -/
def sha1Rounds : List Sha1Round :=
  [.r0 .a .b .c .d .e 0, .r0 .e .a .b .c .d 1,
   .r0 .d .e .a .b .c 2, .r0 .c .d .e .a .b 3,
   .r0 .b .c .d .e .a 4, .r0 .a .b .c .d .e 5,
   .r0 .e .a .b .c .d 6, .r0 .d .e .a .b .c 7,
   .r0 .c .d .e .a .b 8, .r0 .b .c .d .e .a 9,
   .r0 .a .b .c .d .e 10, .r0 .e .a .b .c .d 11,
   .r0 .d .e .a .b .c 12, .r0 .c .d .e .a .b 13,
   .r0 .b .c .d .e .a 14, .r0 .a .b .c .d .e 15,
   .r1 .e .a .b .c .d 16, .r1 .d .e .a .b .c 17,
   .r1 .c .d .e .a .b 18, .r1 .b .c .d .e .a 19,
   .r2 .a .b .c .d .e 20, .r2 .e .a .b .c .d 21,
   .r2 .d .e .a .b .c 22, .r2 .c .d .e .a .b 23,
   .r2 .b .c .d .e .a 24, .r2 .a .b .c .d .e 25,
   .r2 .e .a .b .c .d 26, .r2 .d .e .a .b .c 27,
   .r2 .c .d .e .a .b 28, .r2 .b .c .d .e .a 29,
   .r2 .a .b .c .d .e 30, .r2 .e .a .b .c .d 31,
   .r2 .d .e .a .b .c 32, .r2 .c .d .e .a .b 33,
   .r2 .b .c .d .e .a 34, .r2 .a .b .c .d .e 35,
   .r2 .e .a .b .c .d 36, .r2 .d .e .a .b .c 37,
   .r2 .c .d .e .a .b 38, .r2 .b .c .d .e .a 39,
   .r3 .a .b .c .d .e 40, .r3 .e .a .b .c .d 41,
   .r3 .d .e .a .b .c 42, .r3 .c .d .e .a .b 43,
   .r3 .b .c .d .e .a 44, .r3 .a .b .c .d .e 45,
   .r3 .e .a .b .c .d 46, .r3 .d .e .a .b .c 47,
   .r3 .c .d .e .a .b 48, .r3 .b .c .d .e .a 49,
   .r3 .a .b .c .d .e 50, .r3 .e .a .b .c .d 51,
   .r3 .d .e .a .b .c 52, .r3 .c .d .e .a .b 53,
   .r3 .b .c .d .e .a 54, .r3 .a .b .c .d .e 55,
   .r3 .e .a .b .c .d 56, .r3 .d .e .a .b .c 57,
   .r3 .c .d .e .a .b 58, .r3 .b .c .d .e .a 59,
   .r4 .a .b .c .d .e 60, .r4 .e .a .b .c .d 61,
   .r4 .d .e .a .b .c 62, .r4 .c .d .e .a .b 63,
   .r4 .b .c .d .e .a 64, .r4 .a .b .c .d .e 65,
   .r4 .e .a .b .c .d 66, .r4 .d .e .a .b .c 67,
   .r4 .c .d .e .a .b 68, .r4 .b .c .d .e .a 69,
   .r4 .a .b .c .d .e 70, .r4 .e .a .b .c .d 71,
   .r4 .d .e .a .b .c 72, .r4 .c .d .e .a .b 73,
   .r4 .b .c .d .e .a 74, .r4 .a .b .c .d .e 75,
   .r4 .e .a .b .c .d 76, .r4 .d .e .a .b .c 77,
   .r4 .c .d .e .a .b 78, .r4 .b .c .d .e .a 79]

/-- `state[5]`. -/
abbrev Sha1State := Vector UInt32 5

/-- `memcpy(block, buffer, 64)`, on a little-endian machine. -/
def blockWords (buffer : List UInt8) : Vector UInt32 16 :=
  .ofFn fun i => UInt32.ofNat (beNat (window buffer (4 * i) 4).reverse)

/-- `SHA1Transform`. -/
def sha1Transform (state : Sha1State) (buffer : List UInt8) : Sha1State :=
  let p : Sha1Work :=
    { a := state[0], b := state[1], c := state[2], d := state[3], e := state[4]
      block := blockWords buffer }
  let p := sha1Rounds.foldl Sha1Round.run p
  #v[state[0] + p.a, state[1] + p.b, state[2] + p.c, state[3] + p.d, state[4] + p.e]

/-- `SHA1_CTX`. -/
structure Sha1Ctx where
  state : Sha1State
  count0 : UInt32
  count1 : UInt32
  buffer : List UInt8
  length_buffer : buffer.length = 64

/-- `memcpy(&context->buffer[j], p, n)` for the `n` bytes `bs`. -/
def Sha1Ctx.copy (ctx : Sha1Ctx) (j : Nat) (bs : List UInt8) : Except Fault Sha1Ctx :=
  if j + bs.length ≤ 64 then
    .ok { ctx with
      buffer := splice ctx.buffer j bs
      length_buffer := (length_splice ctx.buffer j bs).trans ctx.length_buffer }
  else .error .bounds

/-- `SHA1Init`. The bytes of the buffer are not set. -/
def sha1Init (ctx : Sha1Ctx) : Sha1Ctx :=
  { ctx with
    state := #v[0x67452301, 0xEFCDAB89, 0x98BADCFE, 0x10325476, 0xC3D2E1F0]
    count0 := 0
    count1 := 0 }

/-- The `n` bytes at `data[i]`. -/
def bytesAt (data : List UInt8) (i n : Nat) : Except Fault (List UInt8) :=
  if i + n ≤ data.length then .ok (window data i n) else .error .bounds

/-- The blocks that lie in `data` as a whole, from `data[i]` on, in at most `fuel` rounds. -/
def sha1Blocks (data : List UInt8) (len : UInt32) :
    Nat → UInt32 → Sha1State → Except Fault (UInt32 × Sha1State)
  | 0, _, _ => .error .endless
  | fuel + 1, i, state =>
    if i + 63 < len then do
      let block ← bytesAt data i.toNat 64
      sha1Blocks data len fuel (i + 64) (sha1Transform state block)
    else .ok (i, state)

/-- `SHA1Update`, for the first `len` bytes of `data`. -/
def sha1Update (ctx : Sha1Ctx) (data : List UInt8) (len : UInt32) : Except Fault Sha1Ctx := do
  let j := ctx.count0
  let count0 := ctx.count0 + (len <<< 3)
  let count1 := if count0 < j then ctx.count1 + 1 else ctx.count1
  let ctx := { ctx with count0 := count0, count1 := count1 + (len >>> 29) }
  let j := (j >>> 3) &&& 63
  if j + len > 63 then
    let i := 64 - j
    let ctx ← ctx.copy j.toNat (← bytesAt data 0 i.toNat)
    let ctx := { ctx with state := sha1Transform ctx.state ctx.buffer }
    let (i, state) ← sha1Blocks data len (len.toNat + 1) i ctx.state
    let ctx := { ctx with state := state }
    ctx.copy 0 (← bytesAt data i.toNat (len - i).toNat)
  else
    ctx.copy j.toNat (← bytesAt data 0 len.toNat)

/-- Bytes of zero until eight bytes are missing to a full block, at most `fuel` of them. -/
def sha1Zeros : Nat → Sha1Ctx → Except Fault Sha1Ctx
  | 0, _ => .error .endless
  | fuel + 1, ctx =>
    if ctx.count0 &&& 504 ≠ 448 then do sha1Zeros fuel (← sha1Update ctx [0] 1)
    else .ok ctx

/-- The bytes of `finalcount`. -/
def finalCount (ctx : Sha1Ctx) : List UInt8 :=
  (List.range 8).map fun i =>
    let count := if 4 ≤ i then ctx.count0 else ctx.count1
    ((count >>> UInt32.ofNat ((3 - i % 4) * 8)) &&& 255).toUInt8

/-- The bytes of `digest`. -/
def digestBytes (state : Sha1State) : List UInt8 :=
  (List.finRange 20).map fun i : Fin 20 =>
    ((state[i.val / 4] >>> UInt32.ofNat ((3 - i.val % 4) * 8)) &&& 255).toUInt8

/-- `memset(context, '\0', sizeof(*context))`. -/
def Sha1Ctx.wiped : Sha1Ctx where
  state := .replicate 5 0
  count0 := 0
  count1 := 0
  buffer := .replicate 64 0
  length_buffer := List.length_replicate

/-- `SHA1Final`: the digest, and the context. -/
def sha1Final (ctx : Sha1Ctx) : Except Fault (List UInt8 × Sha1Ctx) := do
  let finalcount := finalCount ctx
  let ctx ← sha1Update ctx [0x80] 1
  let ctx ← sha1Zeros 64 ctx
  let ctx ← sha1Update ctx finalcount 8
  return (digestBytes ctx.state, .wiped)

/-- `SHA1`. The context is on the stack, and `len` is compared with an unsigned number. -/
def sha1 (ctx : Sha1Ctx) (str : List UInt8) (len : UInt32) : Except Fault (List UInt8) := do
  let ctx ← (List.range len.toNat).foldlM (fun ctx ii => sha1Update ctx (str.drop ii) 1)
    (sha1Init ctx)
  return (← sha1Final ctx).1

end Tst
