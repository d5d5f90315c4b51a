import Tst.WebSocket.Receive

/-!
# WebSocket frames

The frames that a peer may send, and what the header reads of `websocket()` make of a
frame whose header has arrived.

## Main definitions

- `Frame` — a frame with one of the three forms of its length
- `Frame.bytes` — its bytes on the wire

## Main results

- `WsRecv.read_header` — a header that has arrived is read as it was sent
-/

namespace Tst

open Bytes ByteOrder

/-- The three forms of the length of a payload. -/
inductive LenForm
  | short | medium | long
  deriving DecidableEq, Repr

namespace LenForm

/-- The lengths that a form can express; 10485760 is the limit of the receiver. -/
def Fits : LenForm → Nat → Prop
  | short, n => n < 126
  | medium, n => n < 2 ^ 16
  | long, n => n ≤ 10485760

/-- The seven length bits of the second byte. -/
def code (n : Nat) : LenForm → UInt8
  | short => UInt8.ofNat n
  | medium => 126
  | long => 127

/-- The extended length. -/
def ext (n : Nat) : LenForm → List UInt8
  | short => []
  | medium => beBytes 2 n
  | long => beBytes 8 n

theorem Fits.le {form : LenForm} {n : Nat} (h : form.Fits n) : n ≤ 10485760 := by
  cases form with
  | short => exact Nat.le_of_lt (Nat.lt_trans h (by decide))
  | medium => exact Nat.le_of_lt (Nat.lt_trans h (by decide))
  | long => exact h

theorem code_lt {form : LenForm} {n : Nat} (h : form.Fits n) : (form.code n).toNat < 128 := by
  cases form with
  | short =>
    have hn : n < 126 := h
    rw [code, UInt8.toNat_ofNat', Nat.mod_eq_of_lt (by omega)]
    omega
  | medium | long => exact of_decide_eq_true rfl

end LenForm

theorem keyLen_none : ∀ k ∈ (none : Option (List UInt8)), k.length = 4 :=
  fun _ hk => absurd hk (Option.not_mem_none _)

/-- A frame: its first byte, its masking key, and its payload, whose length fits the form
in which it is sent. -/
structure Frame where
  first : UInt8
  form : LenForm
  key : Option (List UInt8)
  payload : List UInt8
  fits : form.Fits payload.length
  keyLen : ∀ k ∈ key, k.length = 4

namespace Frame

/-- The second byte: the mask bit and the length bits. -/
def second (f : Frame) : UInt8 :=
  (if f.key.isSome then 0x80 else 0) ||| f.form.code f.payload.length

def header (f : Frame) : List UInt8 :=
  [f.first, f.second] ++ f.form.ext f.payload.length ++ f.key.getD []

/-- The payload as it is sent. -/
def body (f : Frame) : List UInt8 :=
  match f.key with
  | some k => unmask k f.payload.length f.payload
  | none => f.payload

def bytes (f : Frame) : List UInt8 := f.header ++ f.body

/-- The position of the mask in the header. -/
def maskPos (f : Frame) : Nat := 2 + (f.form.ext f.payload.length).length

/-- What the header says. -/
def info (f : Frame) (info : WsInfo) : WsInfo :=
  { info.start f.first f.second with dataLen := f.payload.length }

end Frame

theorem unmask_length (k : List UInt8) (n : Nat) (s : List UInt8) :
    (unmask k n s).length = s.length := by
  simp only [unmask, List.length_mapIdx]

theorem take_unmask (k : List UInt8) (n m : Nat) (s : List UInt8) :
    (unmask k n s).take m = unmask k n (s.take m) := by
  apply List.ext_getElem
  · simp [unmask]
  · intro i h₁ h₂
    simp [unmask]

@[simp] theorem Frame.length_body (f : Frame) : f.body.length = f.payload.length := by
  simp only [body]
  split
  · exact unmask_length ..
  · rfl

/-- Unmasking twice gives the bytes back. -/
theorem unmask_unmask (k : List UInt8) (n : Nat) (s : List UInt8) :
    unmask k n (unmask k n s) = s := by
  apply List.ext_getElem
  · simp only [unmask_length]
  · intro i h₁ h₂
    by_cases hi : i < n
    · simp only [unmask, List.getElem_mapIdx, if_pos hi, UInt8.xor_assoc, UInt8.xor_self,
        UInt8.xor_zero]
    · simp [unmask, hi]

/-- The mask bit and the length bits of the second byte. -/
theorem second_bits (b : Bool) {x : UInt8} (hx : x.toNat < 128) :
    ((if b then 0x80 else 0) ||| x) &&& 0x7F = x ∧
      (((if b then 0x80 else 0) ||| x) &&& 0x80 ≠ 0 ↔ b = true) := by
  have hall : ∀ (b : Bool) (n : Fin 128),
      ((if b then 0x80 else 0) ||| UInt8.ofNat n.val) &&& 0x7F = UInt8.ofNat n.val ∧
        (((if b then 0x80 else 0) ||| UInt8.ofNat n.val) &&& 0x80 ≠ 0 ↔ b = true) := by
    decide
  simpa using hall b ⟨x.toNat, hx⟩

theorem Frame.start_dataLen (f : Frame) (info : WsInfo) :
    (info.start f.first f.second).dataLen = (f.form.code f.payload.length).toNat := by
  change (f.second &&& 0x7F).toNat = _
  rw [second, (second_bits _ (LenForm.code_lt f.fits)).1]

theorem Frame.start_isMasked (f : Frame) (info : WsInfo) :
    (info.start f.first f.second).isMasked = f.key.isSome := by
  have hbit := (second_bits f.key.isSome (LenForm.code_lt f.fits)).2
  change decide (f.second &&& 0x80 ≠ 0) = _
  rw [second]
  by_cases hkey : f.key.isSome = true
  · rw [hkey] at hbit ⊢
    exact decide_eq_true (hbit.mpr rfl)
  · rw [Bool.eq_false_iff.mpr hkey] at hbit ⊢
    exact decide_eq_false fun hne => Bool.false_ne_true (hbit.mp hne)

-- ════════════════════════════════════════════════════════════════════════
-- The header reads
-- ════════════════════════════════════════════════════════════════════════

namespace WsRecv

variable {w w' : WsRecv} {pre bs rest : List UInt8}

/-- `w'` comes from `w` by reads that have put the header bytes `pre` at the start of the
buffer and have left `rest` unread. -/
structure HasRead (w w' : WsRecv) (pre rest : List UInt8) : Prop where
  sd : w'.sd = w.sd
  unread : w'.unread = rest
  com : w'.recv.comLen.toNat = pre.length
  bytes : w'.recv.s.take pre.length = pre
  sLen : w'.recv.sLen = w.recv.sLen
  length : w'.recv.s.length = w.recv.s.length

/-- A `read()` of bytes that are there. -/
theorem read_eq (p : Nat) (hu : w.unread = bs ++ rest) (hbs : bs ≠ []) :
    w.read p bs.length = ({ w with
      recv := { w.recv with s := splice w.recv.s p bs }, unread := rest }, some bs.length) := by
  have hne : ¬ (0 < bs.length ∧ w.unread = []) := by simp [hu, hbs]
  rw [read, if_neg hne, hu, List.take_left, List.drop_left]

@[simp] theorem read_info (w : WsRecv) (p n : Nat) : (w.read p n).1.info = w.info := by
  simp only [read]
  split <;> rfl

@[simp] theorem readMore_info (w : WsRecv) (n : Nat) : (w.readMore n).info = w.info := by
  simp only [readMore, read_info]

@[simp] theorem readMask_info (w : WsRecv) : w.readMask.info = w.info := by
  simp only [readMask]
  split
  · exact readMore_info w 4
  · rfl

theorem HasRead.start (hu : w.unread = bs ++ rest) (hbs : bs ≠ [])
    (hroom : bs.length ≤ w.recv.s.length) (hsmall : bs.length < 2 ^ 32) :
    HasRead w (w.readFirst bs.length) bs rest := by
  have hsplice : 0 + bs.length ≤ w.recv.s.length := by omega
  rw [readFirst, read_eq 0 hu hbs]
  refine ⟨rfl, rfl, ?_, ?_, rfl, length_splice ..⟩
  · exact (toNat_addResult_some (by simpa using hsmall)).trans (by simp)
  · simpa using take_splice_end hsplice

theorem HasRead.more (h : HasRead w w' pre (bs ++ rest)) (hbs : bs ≠ [])
    (hroom : pre.length + bs.length ≤ w.recv.s.length) (hsmall : pre.length + bs.length < 2 ^ 32) :
    HasRead w (w'.readMore bs.length) (pre ++ bs) rest := by
  have hsplice : pre.length + bs.length ≤ w'.recv.s.length := by rwa [h.length]
  rw [readMore, read_eq _ h.unread hbs, h.com]
  refine ⟨h.sd, rfl, ?_, ?_, h.sLen, (length_splice ..).trans h.length⟩
  · refine (toNat_addResult_some ?_).trans ?_
    · rw [h.com]
      exact hsmall
    · rw [h.com, List.length_append]
  · rw [List.length_append, take_splice_end hsplice, h.bytes]

/-- What has been read can be looked up. -/
theorem HasRead.window (h : HasRead w w' pre rest) {p n : Nat} (hp : p + n ≤ pre.length) :
    Bytes.window w'.recv.s p n = Bytes.window pre p n := by
  conv_rhs => rw [← h.bytes]
  rw [window_take hp]

theorem HasRead.getD (h : HasRead w w' pre rest) {i : Nat} (hi : i < pre.length) :
    w'.recv.s.getD i 0 = pre.getD i 0 := by
  conv_rhs => rw [← h.bytes]
  simp [List.getD_eq_getElem?_getD, hi]

theorem HasRead.mask {f : Frame} (h : HasRead w w' pre (f.key.getD [] ++ rest))
    (hroom : 14 ≤ w.recv.s.length) (hpre : pre.length ≤ 10)
    (hmask : w'.info.isMasked = f.key.isSome) :
    HasRead w w'.readMask (pre ++ f.key.getD []) rest := by
  cases hkey : f.key with
  | none =>
    rw [hkey] at h hmask
    simpa [readMask, hmask] using h
  | some k =>
    have hk : k.length = 4 := f.keyLen k (by simp [hkey])
    rw [hkey, Option.getD_some] at h
    rw [hkey] at hmask
    have hmore : HasRead w (w'.readMore k.length) (pre ++ k) rest :=
      h.more (by rintro rfl; simp at hk) (by omega) (by omega)
    simpa [readMask, hmask, hk] using hmore

/-- The first two bytes. -/
theorem HasRead.first {b₀ b₁ : UInt8} (hu : w.unread = [b₀, b₁] ++ rest)
    (hroom : 14 ≤ w.recv.s.length) :
    HasRead w w.readStart [b₀, b₁] rest ∧ w.readStart.info = w.info.start b₀ b₁ := by
  have h : HasRead w (w.readFirst 2) [b₀, b₁] rest :=
    .start hu (by simp) (Nat.le_trans (by simp) hroom) (by simp)
  have hinfo : (w.readFirst 2).info = w.info := by simp only [readFirst, read_info]
  refine ⟨⟨h.sd, h.unread, h.com, h.bytes, h.sLen, h.length⟩, ?_⟩
  have h₀ := h.getD (i := 0) (by simp)
  have h₁ := h.getD (i := 1) (by simp)
  simp only [readStart, h₀, h₁, hinfo]
  rfl

/-- After the length field come the length that it states and the mask. -/
theorem HasRead.extended {f : Frame}
    (h : HasRead w w' ([f.first, f.second] ++ f.form.ext f.payload.length)
      (f.key.getD [] ++ rest))
    (hinfo : w'.info = w.info.start f.first f.second) (hroom : 14 ≤ w.recv.s.length) :
    HasRead w (w'.setLen f.payload.length).readMask f.header rest ∧
      (w'.setLen f.payload.length).readMask.info = f.info w.info := by
  have hext : (f.form.ext f.payload.length).length ≤ 8 := by cases f.form <;> simp [LenForm.ext]
  have hlen : HasRead w (w'.setLen f.payload.length)
      ([f.first, f.second] ++ f.form.ext f.payload.length) (f.key.getD [] ++ rest) :=
    ⟨h.sd, h.unread, h.com, h.bytes, h.sLen, h.length⟩
  have hmasked : (w'.setLen f.payload.length).info.isMasked = f.key.isSome := by
    rw [← f.start_isMasked w.info, ← hinfo]
    rfl
  refine ⟨hlen.mask hroom (by simp; omega) hmasked, ?_⟩
  rw [readMask_info, setLen, hinfo, Frame.info]

/-- The two halves of a long length. -/
theorem HasRead.long {b₀ b₁ : UInt8} {ext : List UInt8} (h : HasRead w w' ([b₀, b₁] ++ ext) rest)
    (hext : ext.length = 8) (hroom : 14 ≤ w.recv.s.length) :
    w'.ntoh 2 4 * 2 ^ 32 + w'.ntoh 6 4 = beNat ext := by
  have hsplit := beNat_append (Bytes.window w'.recv.s 2 4) (Bytes.window w'.recv.s 6 4)
  have hfour : (Bytes.window w'.recv.s 6 4).length = 4 := by
    apply length_window
    rw [h.length]
    omega
  have hwin : Bytes.window ([b₀, b₁] ++ ext) 2 (4 + 4) = ext := by
    rw [Bytes.window]
    exact List.take_of_length_le (Nat.le_of_eq hext)
  rw [window_append, h.window (by simp [hext]), hwin, hfour] at hsplit
  rw [hsplit]
  rfl

/-- A header that has arrived is read as it was sent. -/
theorem read_header {f : Frame} (hu : w.unread = f.header ++ rest)
    (hroom : 14 ≤ w.recv.s.length) :
    HasRead w w.readStart.readLen.1 f.header rest ∧
      w.readStart.readLen.1.info = f.info w.info ∧ w.readStart.readLen.2 = f.maskPos := by
  have hu' : w.unread = [f.first, f.second] ++
      (f.form.ext f.payload.length ++ (f.key.getD [] ++ rest)) := by simp [hu, Frame.header]
  obtain ⟨hfirst, hinfo⟩ := HasRead.first hu' hroom
  have hlen : w.readStart.info.dataLen = (f.form.code f.payload.length).toNat := by
    rw [hinfo, f.start_dataLen]
  have hfits := f.fits
  -- the length field is empty, or one more `read()`
  cases hform : f.form with
  | short =>
    rw [hform] at hfirst hlen hfits
    have hn : f.payload.length < 126 := hfits
    have hcode : w.readStart.info.dataLen = f.payload.length := by
      rw [hlen, LenForm.code, UInt8.toNat_ofNat', Nat.mod_eq_of_lt (by omega)]
    have hread : w.readStart.readLen = ((w.readStart.setLen f.payload.length).readMask, 2) := by
      rw [readLen, if_pos (by omega), ← hcode, setLen]
    obtain ⟨hdone, hinfo'⟩ := HasRead.extended (f := f)
      (by simpa [hform, LenForm.ext] using hfirst) hinfo hroom
    rw [hread]
    exact ⟨hdone, hinfo', by simp [Frame.maskPos, hform, LenForm.ext]⟩
  | medium =>
    rw [hform] at hfirst hlen hfits
    have hlen : w.readStart.info.dataLen = 126 := hlen
    have hmore := hfirst.more (by simp [LenForm.ext, beBytes, leBytes]) (by simp [LenForm.ext]; omega)
      (by simp [LenForm.ext])
    have hext : (LenForm.medium.ext f.payload.length).length = 2 := length_beBytes ..
    rw [hext] at hmore
    have hvalue : (w.readStart.readMore 2).ntoh 2 2 = f.payload.length := by
      rw [ntoh, hmore.window (by simp [LenForm.ext])]
      have hwin : window ([f.first, f.second] ++ LenForm.medium.ext f.payload.length) 2 2 =
          beBytes 2 f.payload.length := by simp [window, LenForm.ext, List.take_of_length_le]
      rw [hwin, beNat_beBytes hfits]
    have hread : w.readStart.readLen =
        (((w.readStart.readMore 2).setLen f.payload.length).readMask, 4) := by
      rw [readLen, if_neg (by omega), if_pos hlen]
      simp only [hvalue]
    rw [← hform] at hmore
    obtain ⟨hdone, hinfo'⟩ := hmore.extended (by rw [readMore_info, hinfo]) hroom
    rw [hread]
    exact ⟨hdone, hinfo', by simp [Frame.maskPos, hform, LenForm.ext]⟩
  | long =>
    rw [hform] at hfirst hlen hfits
    have hlen : w.readStart.info.dataLen = 127 := hlen
    have hmore := hfirst.more (by simp [LenForm.ext, beBytes, leBytes]) (by simp [LenForm.ext]; omega)
      (by simp [LenForm.ext])
    have hext : (LenForm.long.ext f.payload.length).length = 8 := length_beBytes ..
    rw [hext] at hmore
    have hvalue : (w.readStart.readMore 8).ntoh 2 4 * 2 ^ 32 + (w.readStart.readMore 8).ntoh 6 4 =
        f.payload.length := by
      have hsmall : f.payload.length < 256 ^ 8 := Nat.lt_of_le_of_lt hfits (by decide)
      rw [hmore.long hext hroom, LenForm.ext, beNat_beBytes hsmall]
    have hread : w.readStart.readLen =
        (((w.readStart.readMore 8).setLen f.payload.length).readMask, 10) := by
      rw [readLen, if_neg (by omega), if_neg (by omega)]
      simp only [hvalue]
    rw [← hform] at hmore
    obtain ⟨hdone, hinfo'⟩ := hmore.extended (by rw [readMore_info, hinfo]) hroom
    rw [hread]
    exact ⟨hdone, hinfo', by simp [Frame.maskPos, hform, LenForm.ext]⟩

end WsRecv

end Tst
