import Tst.Lib.CString
import Tst.WebSocket.Payload

/-!
# Texts sent and received

`ws_writetext` frames a text; `websocket()` unframes it. The two agree on the lengths below
126 and on 126 itself. Longer texts are announced in host byte order, which the receiver
takes for a length beyond its limit.

## Main definitions

- `wsWritetext` — the bytes that are written for a text

## Main results

- `writetext_roundtrip_iff` — when the text comes back
- `writetext_no_roundtrip` — it does not always
-/

namespace Tst

open Bytes ByteOrder CString

/-- The bytes after the first one of the frame header that `ws_writetext` builds for a text
of `n` bytes. Only the exact length 126 takes the 16-bit form, and the 64-bit length is
stored as the host has it. -/
def writetextLen (n : Nat) : List UInt8 :=
  if n < 126 then [UInt8.ofNat n]
  else if n = 126 then 126 :: beBytes 2 n
  else 127 :: leBytes 8 n

/-- `ws_writetext` on a little-endian host, when `write()` takes all bytes: what is written,
and the `int` returned. -/
def wsWritetext (text : Option (List UInt8)) : List UInt8 × Int :=
  match text with
  | none => ([], -1)
  | some text =>
    let reqLen := (cstr text).length
    (0x81 :: writetextLen reqLen ++ cstr text, Int.bmod reqLen (2 ^ 32))

/-- The text has come back: one call of the user function, with the text and its length,
and what followed it is still to be read. -/
structure RoundTrip (text rest : List UInt8) (r : WsResult) : Prop where
  delivered : ∃ d, r.delivered = [d] ∧ d.info.isText = true ∧ d.info.dataLen = text.length ∧
    d.data = text
  unread : r.conn.unread = rest

namespace WsRecv

variable {w : WsRecv} {junk : Nat → UInt8}

/-- What the user function returns does not bear on the call. -/
theorem websocket_suspend (w : WsRecv) (junk : Nat → UInt8) (g : WebsocketFunc) :
    (w.websocket junk (some g)).delivered = (w.websocket junk (some alwaysSuspend)).delivered ∧
      (w.websocket junk (some g)).conn.unread =
        (w.websocket junk (some alwaysSuspend)).conn.unread := by
  have hfinish : ∀ w : WsRecv, (w.finish (some g)).delivered =
      (w.finish (some alwaysSuspend)).delivered ∧ (w.finish (some g)).conn.unread =
        (w.finish (some alwaysSuspend)).conn.unread := by
    intro w
    simp only [finish]
    refine ⟨trivial, ?_⟩
    split <;> split <;> rfl
  simp only [websocket]
  split
  · split
    · exact ⟨rfl, rfl⟩
    · split
      · exact ⟨rfl, rfl⟩
      · exact hfinish _
  · exact hfinish _

/-- A 64-bit length beyond the limit ends the connection. -/
theorem long_disconnect {b₀ b₁ : UInt8} {ext rest : List UInt8} (hstep : w.info.step = 0)
    (hroom : 14 ≤ w.recv.s.length) (hu : w.unread = [b₀, b₁] ++ (ext ++ rest))
    (hlong : b₁ &&& 0x7F = 127) (hext : ext.length = 8) (hbig : 10485760 < beNat ext)
    (func : Option WebsocketFunc) :
    (w.websocket junk func).delivered = [] ∧ (w.websocket junk func).next = .disconnect := by
  obtain ⟨hfirst, hinfo⟩ := HasRead.first hu hroom
  have hlen : w.readStart.info.dataLen = 127 := by
    rw [hinfo]
    change (b₁ &&& 0x7F).toNat = 127
    rw [hlong]
    rfl
  have hmore := hfirst.more (by rintro rfl; simp at hext) (by simp [hext]; omega) (by simp [hext])
  have hvalue := hmore.long hext hroom
  rw [hext] at hvalue
  have hread : w.readStart.readLen =
      (((w.readStart.readMore 8).setLen (beNat ext)).readMask, 10) := by
    rw [readLen, if_neg (by omega), if_neg (by omega)]
    simp only [hvalue]
  rw [websocket, if_pos hstep]
  simp only [hread, readMask_info]
  rw [if_pos ⟨trivial, hbig⟩]
  exact ⟨rfl, rfl⟩

end WsRecv

/-- The bytes of a length, read the other way round, are a length beyond the limit. -/
theorem beNat_leBytes_big {n : Nat} (hpos : 0 < n) (hn : n ≤ 10485760) :
    10485760 < beNat (leBytes 8 n) := by
  have hlow : leBytes 8 n = leBytes 3 n ++ leBytes 5 (n / 256 / 256 / 256) := rfl
  have hthree : beNat (leBytes 3 n) =
      (n % 256 * 256 + n / 256 % 256) * 256 + n / 256 / 256 % 256 := by
    simp [beNat, leBytes]
  have hsome : 0 < beNat (leBytes 3 n) := by omega
  rw [hlow, beNat_append, length_leBytes]
  omega

/-- The frame of a text up to 126 bytes. -/
def Frame.ofText (text : List UInt8) (h : text.length ≤ 126) : Frame where
  first := 0x81
  form := if text.length < 126 then .short else .medium
  key := none
  payload := text
  fits := by
    split
    · assumption
    · exact Nat.lt_of_le_of_lt h (by decide)
  keyLen := keyLen_none

theorem Frame.bytes_ofText {text : List UInt8} (h : text.length ≤ 126) :
    (Frame.ofText text h).bytes = 0x81 :: writetextLen text.length ++ text := by
  by_cases hshort : text.length < 126
  · simp [Frame.bytes, Frame.header, Frame.second, Frame.body, Frame.ofText, writetextLen, hshort,
      LenForm.code, LenForm.ext]
  · obtain hn : text.length = 126 := by omega
    simp [Frame.bytes, Frame.header, Frame.second, Frame.body, Frame.ofText, writetextLen, hn,
      LenForm.code, LenForm.ext]

/-- A text of more than 126 bytes ends the connection of the receiver. -/
theorem writetext_long {w : WsRecv} {text rest : List UInt8} (hw : w.Ready) (hnul : 0 ∉ text)
    (hlen : text.length ≤ 10485760) (hu : w.unread = (wsWritetext (some text)).1 ++ rest)
    (hlong : 126 < text.length) (junk : Nat → UInt8) (func : Option WebsocketFunc) :
    (w.websocket junk func).delivered = [] ∧ (w.websocket junk func).next = .disconnect := by
  have hwf : w.recv.sLen.toNat ≤ w.recv.s.length := hw.wf
  have hroom := hw.room
  have hform : writetextLen text.length = 127 :: leBytes 8 text.length := by
    rw [writetextLen, if_neg (by omega), if_neg (by omega)]
  have hstream : w.unread = [0x81, 127] ++ (leBytes 8 text.length ++ (text ++ rest)) := by
    simp [hu, wsWritetext, cstr_of_noNul hnul, hform]
  exact WsRecv.long_disconnect hw.step (by omega) hstream (by decide) (length_leBytes ..)
    (beNat_leBytes_big (by omega) hlen) func

/-- A text that `ws_writetext` sends comes back from `websocket()` exactly when it has at
most 126 bytes. -/
theorem writetext_roundtrip_iff (w : WsRecv) (junk : Nat → UInt8) (func : WebsocketFunc)
    (text rest : List UInt8) (hw : w.Ready) (hnul : 0 ∉ text) (hlen : text.length ≤ 10485760)
    (hu : w.unread = (wsWritetext (some text)).1 ++ rest) :
    RoundTrip text rest (w.websocket junk (some func)) ↔ text.length ≤ 126 := by
  obtain ⟨hdelivered, hunread⟩ := w.websocket_suspend junk func
  constructor
  · intro hround
    by_contra hlong
    obtain ⟨hnone, -⟩ := writetext_long hw hnul hlen hu (Nat.not_le.mp hlong) junk (some func)
    obtain ⟨d, hd, -⟩ := hround.delivered
    rw [hnone] at hd
    exact List.cons_ne_nil _ _ hd.symm
  · intro hshort
    let f := Frame.ofText text hshort
    have hstream : w.unread = f.header ++ (text ++ rest) := by
      simp only [wsWritetext, cstr_of_noNul hnul] at hu
      rw [hu, ← Frame.bytes_ofText hshort, Frame.bytes, List.append_assoc]
      rfl
    have hfirst : f.payload = [] ∨ text ++ rest ≠ [] := by
      by_cases hnil : text = []
      · exact .inl hnil
      · exact .inr (List.append_ne_nil_of_left_ne_nil hnil rest)
    obtain ⟨w', hopen, hrest, hbytes, -, heq⟩ :=
      hw.websocket_eq hstream hfirst junk (some alwaysSuspend)
    have hall : ¬ (text ++ rest).length < f.payload.length := by
      rw [List.length_append]
      exact Nat.not_lt.mpr (Nat.le_add_right ..)
    have htake : (text ++ rest).take f.payload.length = text := List.take_left ..
    rw [htake] at hbytes
    rw [if_neg hall] at heq
    have hhanded := hopen.finish hbytes
    obtain ⟨d, hd, hreceived⟩ := hhanded.delivered
    have htext : (0x81 : UInt8) &&& 0x0F = 0x1 := by decide
    refine ⟨⟨d, ?_, hreceived.isText.mpr htext, hreceived.dataLen, hreceived.data⟩, ?_⟩
    · rw [hdelivered, heq, hd]
    · rw [hunread, heq, hhanded.unread, hrest]
      exact List.drop_left ..

/-- "Hi". -/
theorem writetext_roundtrip_hi :
    RoundTrip [72, 105] [] ((WsRecv.upgraded (wsWritetext (some [72, 105])).1).websocket
      (fun _ => 0) (some alwaysSuspend)) :=
  (writetext_roundtrip_iff _ _ _ [72, 105] [] (WsRecv.upgraded_ready _) (by decide) (by decide)
    (by rw [List.append_nil]; rfl)).mpr (by decide)

/-- A text of 127 bytes does not come back: the connection is ended. -/
theorem writetext_no_roundtrip :
    ∃ text : List UInt8, 0 ∉ text ∧ text.length = 127 ∧
      ¬ RoundTrip text [] ((WsRecv.upgraded (wsWritetext (some text)).1).websocket (fun _ => 0)
        (some alwaysSuspend)) := by
  have hnul : (0 : UInt8) ∉ List.replicate 127 97 := by
    rw [List.mem_replicate]
    decide
  refine ⟨List.replicate 127 97, hnul, List.length_replicate, fun hround => ?_⟩
  obtain ⟨d, hd, -⟩ := hround.delivered
  have hu : (WsRecv.upgraded (wsWritetext (some (List.replicate 127 97))).1).unread =
      (wsWritetext (some (List.replicate 127 97))).1 ++ [] := (List.append_nil _).symm
  obtain ⟨hnone, -⟩ := writetext_long (WsRecv.upgraded_ready _) hnul
    (by rw [List.length_replicate]; decide) hu (by rw [List.length_replicate]; decide)
    (fun _ => 0) (some alwaysSuspend)
  rw [hnone] at hd
  exact List.cons_ne_nil _ _ hd.symm

end Tst
