import Tst.WebSocket.Bounds
import Tst.WebSocket.Stream

/-!
# Messages as C strings

`websocket_func` is called with a pointer to the payload, and `websocket_alive` reads a string
there. `reset_data` has cleared the `s_len` bytes of the buffer before the payload is read, and
`realloc` has added one byte that it does not clear.

## Main definitions

- `WsRecv.wakeCall` — the connection as `websocket_func` finds it at a wake-up
- `EndsNul` — the byte behind the payload is there and NUL, once the frame has been begun
- `Watch` — a link, with a note of that for the frame under way

## Main results

- `text_terminated_iff` — at a call, the message is a string exactly when that was so as its frame
  was begun
-/

namespace Tst

open Bytes ByteOrder CString Execution

namespace WsRecv

/-- The connection as `websocket_func` finds it, if `websocket()` comes to call it. -/
def call (w : WsRecv) (junk : Nat → UInt8) : Option WsRecv :=
  if w.info.step = 0 then
    let (w, mPos) := w.readStart.readLen
    if mPos = 10 ∧ w.info.dataLen > 10485760 then none
    else
      let w := (w.openPayload junk mPos).readFirst w.info.dataLen
      if w.recv.comLen.toNat < w.info.dataLen then none else some w.unmasked
  else some w.unmasked

/-- The same at a wake-up with the event bits `e`. -/
def wakeCall (w : WsRecv) (junk : Nat → UInt8) (e : Events) : Option WsRecv :=
  let sock : TstSocket := { sd := w.sd, recv := some w.recv }
  let r := (sock.handEvents e (UInt32.ofNat w.unread.length)).transfer w.kernel
  let w := { w with
    recv := r.sock.recv.getD w.recv
    unread := w.unread.drop r.bytes.length }
  if r.next = .run then w.call junk else none

/-- The pointer `wsinfo.data`. -/
def dataPos (w : WsRecv) : Nat := w.info.data.getD 0

/-- What `websocket_func` is given. -/
def delivery (w : WsRecv) : Delivery := ⟨w.info, window w.recv.s w.dataPos w.info.dataLen⟩

end WsRecv

/-- When a frame with `n` bytes of payload has been begun, the byte behind the payload is there and
NUL: `reset_data` clears it, or it was NUL before, or `realloc` adds it and it is NUL. -/
def EndsNul (d : TstData) (junk : Nat → UInt8) (n : Nat) : Prop :=
  n < d.sLen.toNat ∨ d.s[n]? = some 0 ∨ (d.sLen.toNat < n ∧ d.s.length ≤ n ∧ junk n = 0)

instance (d : TstData) (junk : Nat → UInt8) (n : Nat) : Decidable (EndsNul d junk n) :=
  inferInstanceAs (Decidable (_ ∨ _ ∨ _))

/-- The length of the payload that the header at the front of the unread bytes states. -/
def begunLen : List UInt8 → Nat
  | _ :: b₁ :: ext => statedLen b₁ ext
  | _ => 0

/-- A link, and whether `EndsNul` held as the frame under way was begun. -/
structure Watch where
  link : Link
  sound : Bool

/-- The note after an action. -/
def Watch.soundAt (t : Watch) : LinkAction → Bool
  | .arrive _ => t.sound
  | .wake _ junk =>
    if t.link.conn.info.step = 0 then
      decide (EndsNul t.link.conn.recv junk (begunLen t.link.conn.unread))
    else t.sound

def Watch.step (t : Watch) (a : LinkAction) : Option Watch :=
  (t.link.step a).map fun l => ⟨l, t.soundAt a⟩

-- ════════════════════════════════════════════════════════════════════════
-- The byte behind the payload
-- ════════════════════════════════════════════════════════════════════════

section Behind

variable {d : TstData} {junk : Nat → UInt8} {n i : Nat}

theorem resetData_getElem? (hwf : d.WF) :
    d.resetData.s[i]? = if i < d.sLen.toNat then some 0 else d.s[i]? := by
  have hlen : (List.replicate d.sLen.toNat (0 : UInt8)).length = d.sLen.toNat :=
    List.length_replicate
  have hfit : 0 + (List.replicate d.sLen.toNat (0 : UInt8)).length ≤ d.s.length := by
    rw [hlen, Nat.zero_add]
    exact hwf
  rw [TstData.resetData]
  split
  · next hi =>
    dsimp only
    rw [splice_eq hfit, List.take_zero, List.nil_append,
      List.getElem?_append_left (by rw [hlen]; exact hi), List.getElem?_replicate, if_pos hi]
  · next hi => exact getElem?_splice_of_le (by rw [hlen, Nat.zero_add]; exact Nat.not_lt.mp hi)

/-- The last byte of a buffer that has grown. -/
theorem grow_getElem? (d : TstData) (junk : Nat → UInt8) (n : Nat) :
    (WsRecv.grow d junk n).s[n]? = if n < d.s.length then d.s[n]? else some (junk n) := by
  rw [WsRecv.grow]
  dsimp only
  split
  · next hlt =>
    rw [List.getElem?_append_left (by rw [List.length_take]; omega), List.getElem?_take,
      if_pos (Nat.lt_succ_self n)]
  · next hge =>
    have hle : d.s.length ≤ n := Nat.not_lt.mp hge
    rw [List.take_of_length_le (by omega), List.getElem?_append_right hle, List.getElem?_map,
      List.getElem?_range (by omega), Option.map_some, Nat.add_sub_of_le hle]

namespace WsRecv

variable {w : WsRecv}

/-- The byte behind the payload when the buffer is ready for it. -/
theorem openPayload_behind (hwf : w.recv.WF) (hsmall : w.info.dataLen < 2 ^ 32)
    (junk : Nat → UInt8) (mPos : Nat) :
    (w.openPayload junk mPos).recv.s[w.info.dataLen]? = some 0 ↔
      EndsNul w.recv junk w.info.dataLen := by
  rw [openPayload, EndsNul]
  dsimp only
  split
  · next hbig =>
    obtain ⟨hgrown, hlen⟩ := grow_wf w.recv junk hsmall
    have hlen' : ¬ w.info.dataLen < (grow w.recv junk w.info.dataLen).sLen.toNat := by
      rw [hlen]
      exact Nat.lt_irrefl _
    have hnot : ¬ w.info.dataLen < w.recv.sLen.toNat := Nat.lt_asymm hbig
    rw [resetData_getElem? hgrown, if_neg hlen', grow_getElem?]
    split
    · next hlt => simp [hnot, Nat.not_le.mpr hlt]
    · next hge =>
      simp [hnot, hbig, Nat.not_lt.mp hge]
  · next hfits =>
    rw [resetData_getElem? hwf]
    split
    · next hlt => simp [hlt]
    · next hge =>
      have hnot : ¬ w.recv.sLen.toNat < w.info.dataLen := hfits
      simp [hge, hnot]

theorem read_behind {p : Nat} (h : p + n ≤ i) : (w.read p n).1.recv.s[i]? = w.recv.s[i]? := by
  have hlen := w.length_take_unread_le n
  rw [read]
  split
  · rfl
  · exact getElem?_splice_of_le (by omega)

theorem readMore_behind (h : w.recv.comLen.toNat + n ≤ i) :
    (w.readMore n).recv.s[i]? = w.recv.s[i]? := read_behind h

theorem readFirst_behind (h : n ≤ i) : (w.readFirst n).recv.s[i]? = w.recv.s[i]? :=
  read_behind (by omega)

theorem readMask_behind (h : w.recv.comLen.toNat + 4 ≤ i) :
    w.readMask.recv.s[i]? = w.recv.s[i]? := by
  rw [readMask]
  split
  · exact readMore_behind h
  · rfl

/-- An extended length, and the mask behind it. -/
theorem extended_behind {v : Nat} (hn : n ≤ 8) (hpos : 0 < w.recv.comLen.toNat)
    (hle : w.recv.comLen.toNat ≤ 2) (hi : 14 ≤ i) :
    (((w.readMore n).setLen v).readMask).recv.s[i]? = w.recv.s[i]? := by
  have hcom := comLen_readMore_le (w := w) (n := n) hpos (by omega)
  have hmask : ((w.readMore n).setLen v).recv.comLen.toNat + 4 ≤ i := by
    change (w.readMore n).recv.comLen.toNat + 4 ≤ i
    omega
  rw [readMask_behind hmask]
  exact readMore_behind (by omega)

/-- A header is stored in the first 14 bytes. -/
theorem header_behind (hu : w.unread ≠ []) (hi : 14 ≤ i) :
    w.readStart.readLen.1.recv.s[i]? = w.recv.s[i]? := by
  obtain ⟨hpos, hle⟩ := comLen_readStart hu
  have hstart : w.readStart.recv.s[i]? = w.recv.s[i]? := readFirst_behind (by omega)
  rw [← hstart, readLen]
  split
  · exact readMask_behind (by omega)
  · split
    · exact extended_behind (by decide) hpos hle hi
    · exact extended_behind (by decide) hpos hle hi

theorem unmasked_behind (h : w.info.dataLen ≤ i) : w.unmasked.recv.s[i]? = w.recv.s[i]? := by
  have hnot : ¬ i < w.info.dataLen := Nat.not_lt.mpr h
  rw [unmasked]
  split
  · simp [unmask, hnot]
  · rfl

end WsRecv

end Behind

-- ════════════════════════════════════════════════════════════════════════
-- One frame
-- ════════════════════════════════════════════════════════════════════════

/-- The byte behind the payload is NUL, and the string at `wsinfo.data` is the payload up to its
first NUL. -/
structure WsRecv.IsString (v : WsRecv) (payload : List UInt8) : Prop where
  nul : load v.recv.s (v.dataPos + v.info.dataLen) = .ok 0
  text : str v.recv.s v.dataPos = .ok (cstr payload)

namespace WsRecv

variable {f : Frame} {w : WsRecv} {junk : Nat → UInt8} {e : Events} {u more future tail : List UInt8}

theorem str_of_nul {s payload : List UInt8} (htake : s.take payload.length = payload)
    (hnul : s[payload.length]? = some 0) : str s 0 = .ok (cstr payload) := by
  obtain ⟨hlt, hzero⟩ := List.getElem?_eq_some_iff.mp hnul
  have hs : s = payload ++ 0 :: s.drop (payload.length + 1) := by
    conv_lhs => rw [← List.take_append_drop payload.length s, htake,
      List.drop_eq_getElem_cons hlt, hzero]
  have hmem : (0 : UInt8) ∈ s := by
    rw [hs]
    exact List.mem_append_right _ (List.mem_cons_self ..)
  have hstr := str_at (a := []) (i := 0) (List.nil_append s).symm rfl hmem
  rw [hstr]
  conv_lhs => rw [hs, cstr_append_zero]

/-- A complete payload is a string if the byte behind it is NUL, and only then. -/
theorem Opened.isString_iff (h : Opened f w) (hbody : w.recv.s.take f.payload.length = f.body) :
    w.unmasked.IsString f.payload ↔ w.recv.s[f.payload.length]? = some 0 := by
  have hpos : w.unmasked.dataPos = 0 := by rw [dataPos, unmasked_info, h.data, Option.getD_some]
  have hlen : w.unmasked.info.dataLen = f.payload.length := by rw [unmasked_info, h.dataLen]
  have hbehind : w.unmasked.recv.s[f.payload.length]? = w.recv.s[f.payload.length]? :=
    unmasked_behind (Nat.le_of_eq h.dataLen)
  have htake := h.take_unmasked hbody
  rw [← hbehind]
  constructor
  · intro hs
    have hnul := hs.nul
    rw [hpos, hlen, Nat.zero_add] at hnul
    exact load_eq_ok hnul
  · intro hnul
    refine ⟨?_, hpos ▸ str_of_nul htake hnul⟩
    rw [hpos, hlen, Nat.zero_add, load, hnul]

theorem Opened.delivery_seen (h : Opened f w) (hbody : w.recv.s.take f.payload.length = f.body) :
    w.unmasked.delivery.seen = f.sent := by
  rw [delivery, Delivery.seen, dataPos, unmasked_info, h.data, h.dataLen, h.opcode,
    Option.getD_some, window, List.drop_zero, h.take_unmasked hbody, Frame.sent]

/-- What `EndsNul` asks is not changed by the header. -/
theorem endsNul_congr {d d' : TstData} {n : Nat} (hsLen : d'.sLen = d.sLen)
    (hlen : d'.s.length = d.s.length) (hroom : 14 ≤ d.sLen.toNat)
    (hbehind : ∀ i, 14 ≤ i → d'.s[i]? = d.s[i]?) : EndsNul d' junk n ↔ EndsNul d junk n := by
  rw [EndsNul, EndsNul, hsLen, hlen]
  by_cases hn : n < d.sLen.toNat
  · simp [hn]
  · rw [hbehind n (by omega)]

/-- The byte behind the payload when the first part of the payload has been read. -/
theorem Ready.begun_behind (hw : w.Ready) (hu : w.unread = f.header ++ u) (junk : Nat → UInt8) :
    (w.begun junk).recv.s[f.payload.length]? = some 0 ↔
      EndsNul w.recv junk f.payload.length := by
  have hwf : w.recv.sLen.toNat ≤ w.recv.s.length := hw.wf
  have hroom := hw.room
  have hne : w.unread ≠ [] := by
    rw [hu, Frame.header]
    simp
  obtain ⟨hread, hinfo, -⟩ := read_header hu (by omega)
  have hlen : w.readStart.readLen.1.info.dataLen = f.payload.length := by rw [hinfo]; rfl
  have hlimit := f.fits.le
  have hwf' : w.readStart.readLen.1.recv.WF := by
    rw [TstData.WF, hread.sLen, hread.length]
    exact hwf
  have hopen := openPayload_behind hwf' (by omega) junk w.readStart.readLen.2
  rw [begun, readFirst_behind (Nat.le_of_eq hlen), ← hlen, hopen]
  exact endsNul_congr hread.sLen hread.length hroom fun i hi => header_behind hne hi

/-- What a wake-up hands to `websocket_func` as it begins a frame. -/
theorem Ready.wakeCall_eq (hw : w.Ready) (hin : e.input = true) (hu : w.unread = f.header ++ u)
    (hfirst : f.payload = [] ∨ u ≠ []) (junk : Nat → UInt8) :
    w.wakeCall junk e = if u.length < f.payload.length then none
      else some ({ w with recv := w.taken }.begun junk).unmasked := by
  have hready : Ready { w with recv := w.taken } := ⟨hw.step, hw.idle, hw.wf, hw.room⟩
  obtain ⟨hsmall, hshort⟩ := hready.begun_complete hu hfirst junk
  have hcall : w.wakeCall junk e = { w with recv := w.taken }.call junk := by
    rw [wakeCall]
    simp only [transfer_idle hin hw.idle, Option.getD_some]
    rfl
  rw [hcall, call, if_pos hready.step]
  dsimp only
  rw [if_neg hsmall]
  exact if_congr hshort rfl rfl

/-- A wake-up that begins a frame leaves what `EndsNul` says of it behind the payload. -/
theorem Ready.wake_behind (hw : w.Ready) (hin : e.input = true) (hu : w.unread = f.header ++ u)
    (hfirst : f.payload = [] ∨ u ≠ [])
    (hstep : (w.wake junk (some alwaysSuspend) e).conn.info.step ≠ 0) :
    (w.wake junk (some alwaysSuspend) e).conn.recv.s[
        (w.wake junk (some alwaysSuspend) e).conn.info.dataLen]? = some 0 ↔
      EndsNul w.recv junk f.payload.length := by
  have hready : Ready { w with recv := w.taken } := ⟨hw.step, hw.idle, hw.wf, hw.room⟩
  obtain ⟨hopen, -, -, -⟩ := hready.opened_begun hu hfirst junk
  have hwake : w.wake junk (some alwaysSuspend) e =
      { w with recv := w.taken }.websocket junk (some alwaysSuspend) := hw.wake_eq hin _
  rw [hwake, hready.websocket_begun hu hfirst] at hstep ⊢
  split
  · dsimp only [armPayload]
    rw [hopen.dataLen]
    exact hready.begun_behind hu junk
  · next hfull =>
    rw [if_neg hfull] at hstep
    exact absurd rfl hstep

/-- What the worker fetches of the payload is stored before its end. -/
theorem Receiving.fetched_behind (h : w.Receiving f more) (hu : w.unread ≠ []) :
    w.fetched.recv.s[f.payload.length]? = w.recv.s[f.payload.length]? := by
  have hstep := h.autoStep hu
  have hroom : w.recv.comLen.toNat + (w.taken.autoRecv w.kernel).bytes.length ≤
      w.recv.reqLen.toNat := hstep.room
  have htotal := h.total
  have hend : w.recv.pos + (w.taken.autoRecv w.kernel).bytes.length ≤ f.payload.length := by
    rw [TstData.pos]
    omega
  have hafter := congrArg
    (·[f.payload.length - (w.recv.pos + (w.taken.autoRecv w.kernel).bytes.length)]?) hstep.after
  have htaken : w.taken.pos = w.recv.pos := rfl
  have hget : (w.taken.autoRecv w.kernel).data.s[f.payload.length]? =
      w.taken.s[f.payload.length]? := by
    simpa only [htaken, List.getElem?_drop, Nat.add_sub_of_le hend] using hafter
  exact hget

/-- A further wake-up leaves the byte behind the payload as it is. -/
theorem Receiving.wake_behind (h : w.Receiving f more) (hin : e.input = true) (hu : w.unread ≠ [])
    (hstep : (w.wake junk (some alwaysSuspend) e).conn.info.step ≠ 0) :
    (w.wake junk (some alwaysSuspend) e).conn.recv.s[
        (w.wake junk (some alwaysSuspend) e).conn.info.dataLen]? =
      w.recv.s[f.payload.length]? := by
  have hopen := h.opened_fetched hu
  rw [wake_fetched hin h.pending] at hstep ⊢
  split
  · next hrun =>
    -- the payload is complete, and `step` is reset
    rw [if_pos hrun, WsRecv.websocket, if_neg (by rw [hopen.step]; decide)] at hstep
    exact absurd rfl hstep
  · dsimp only
    rw [hopen.dataLen]
    exact h.fetched_behind hu

/-- What a further wake-up hands to `websocket_func`. -/
theorem Receiving.wakeCall_eq (h : w.Receiving f more) (hin : e.input = true) (hu : w.unread ≠ []) :
    w.wakeCall junk e = if (w.taken.autoRecv w.kernel).next = .run then some w.fetched.unmasked
      else none := by
  have hopen := h.opened_fetched hu
  rw [wakeCall]
  simp only [transfer_pending hin h.pending, Option.getD_some]
  split
  · change w.fetched.call junk = _
    rw [call, if_neg (by rw [hopen.step]; decide)]
  · rfl

end WsRecv

-- ════════════════════════════════════════════════════════════════════════
-- Runs
-- ════════════════════════════════════════════════════════════════════════

/-- The note says whether the byte behind the payload under way is NUL. -/
def Link.Noted (l : Link) (sound : Bool) : Prop :=
  l.conn.info.step ≠ 0 → (l.conn.recv.s[l.conn.info.dataLen]? = some 0 ↔ sound = true)

/-- Some of the frames have been handed over, and the note is right. -/
structure Watch.Follows (fs : List Frame) (t : Watch) : Prop where
  frames : t.link.Follows fs
  noted : t.link.Noted t.sound

/-- What has arrived when a frame is begun states the length of its payload. -/
theorem begunLen_arrived {f : Frame} {u rest : List UInt8} (hu : u = f.header ++ rest) :
    begunLen u = f.payload.length := by
  have hcons : u = f.first :: f.second ::
      (f.form.ext f.payload.length ++ (f.key.getD [] ++ rest)) := by
    rw [hu, Frame.header]
    simp
  rw [hcons, begunLen, Frame.statedLen_second]

/-- One action. -/
theorem watch_follows {fs : List Frame} {t t' : Watch} {a : LinkAction} (hok : beginOk t.link a)
    (h : t.Follows fs) (hstep : t.step a = some t') : t'.Follows fs := by
  obtain ⟨l, hl, rfl⟩ := Option.map_eq_some_iff.mp hstep
  refine ⟨step_follows hok h.frames hl, ?_⟩
  obtain ⟨-, done, todo, -, -, hexp⟩ := h.frames
  cases a with
  | arrive n =>
    obtain rfl := Option.some.inj hl
    exact h.noted
  | wake e junk =>
    rw [Link.step] at hl
    split at hl
    · next hen =>
      obtain ⟨hin, hu, -⟩ := hen
      obtain rfl := Option.some.inj hl
      intro hbegun
      dsimp only at hbegun ⊢
      obtain ⟨f, rest, rfl, ⟨hready, u, hunread, hfirst, -⟩ | ⟨more, hrecv, -⟩⟩ :=
        hexp.wake_cases hok hu
      · rw [Watch.soundAt, if_pos hready.step, begunLen_arrived hunread, decide_eq_true_iff]
        exact hready.wake_behind hin hunread hfirst hbegun
      · have hstep : t.link.conn.info.step ≠ 0 := by
          rw [hrecv.opened.step]
          decide
        have hnoted := h.noted hstep
        rw [hrecv.opened.dataLen] at hnoted
        rw [Watch.soundAt, if_neg hstep, hrecv.wake_behind hin hu hbegun]
        exact hnoted
    · exact absurd hl (by simp)

theorem Watch.wake_enabled (t : Watch) {e : Events} {junk : Nat → UInt8}
    (h : (t.step (.wake e junk)).isSome) : e.input = true ∧ t.link.conn.unread ≠ [] := by
  rw [Watch.step, Option.isSome_map, Link.step] at h
  split at h
  · next hen => exact ⟨hen.1, hen.2.1⟩
  · exact absurd h (by simp)

/-- In every run in which no frame is begun before its header and the first byte of its payload are
there, and for each call of `websocket_func`: it is given the payload of the next frame, and that is
a string exactly when the byte behind it was there and NUL as the frame was begun. -/
theorem text_terminated_iff {fs : List Frame} {conn : WsRecv} {future : List UInt8} {sound : Bool}
    {as : List LinkAction} {t : Watch} {e : Events} {junk : Nat → UInt8} {v : WsRecv}
    (hready : conn.Ready) (hstream : conn.unread ++ future = stream fs)
    (h : Exec Watch.step (fun t a => beginOk t.link a) ⟨{ conn, future }, sound⟩ as t)
    (hok : beginOk t.link (.wake e junk)) (hwake : (t.step (.wake e junk)).isSome)
    (hcall : t.link.conn.wakeCall junk e = some v) :
    ∃ done f todo, fs = done ++ f :: todo ∧
      t.link.delivered.map Delivery.seen = done.map Frame.sent ∧ v.delivery.seen = f.sent ∧
      (v.IsString f.payload ↔ t.soundAt (.wake e junk) = true) := by
  have hinit : Watch.Follows fs ⟨{ conn, future }, sound⟩ :=
    ⟨⟨rfl, [], fs, rfl, rfl, .ready hready hstream⟩, fun hbegun => absurd hready.step hbegun⟩
  obtain ⟨⟨-, done, todo, hfs, hdone, hexp⟩, hnoted⟩ :=
    h.invariant (fun _ _ _ hok ht hstep => watch_follows hok ht hstep) hinit
  obtain ⟨hin, hu⟩ := t.wake_enabled hwake
  obtain ⟨f, rest, rfl, ⟨hready', u, hunread, hfirst, hrest⟩ | ⟨more, hrecv, hstream'⟩⟩ :=
    hexp.wake_cases hok hu
  · rw [hready'.wakeCall_eq hin hunread hfirst] at hcall
    split at hcall
    · exact absurd hcall (by simp)
    · next hfull =>
      obtain rfl := Option.some.inj hcall
      have htaken : WsRecv.Ready { t.link.conn with recv := t.link.conn.taken } :=
        ⟨hready'.step, hready'.idle, hready'.wf, hready'.room⟩
      obtain ⟨hopen, -, hbytes, -⟩ := htaken.opened_begun hunread hfirst junk
      have hbody : u.take f.payload.length = f.body := by
        obtain ⟨m, hm, -⟩ := WsRecv.exists_rest hrest.symm (by rw [f.length_body]; omega)
        rw [hm, ← f.length_body, List.take_left]
      rw [hbody, f.length_body] at hbytes
      refine ⟨done, f, rest, hfs, hdone, hopen.delivery_seen hbytes, ?_⟩
      rw [hopen.isString_iff hbytes, Watch.soundAt, if_pos hready'.step,
        begunLen_arrived hunread, decide_eq_true_iff]
      exact htaken.begun_behind hunread junk
  · have hstep : t.link.conn.info.step ≠ 0 := by
      rw [hrecv.opened.step]
      decide
    have hnote := hnoted hstep
    rw [hrecv.opened.dataLen] at hnote
    rw [hrecv.wakeCall_eq hin hu] at hcall
    split at hcall
    · next hrun =>
      obtain rfl := Option.some.inj hcall
      obtain ⟨-, hbody, -⟩ | ⟨hsuspend, -⟩ := hrecv.fetched_cases hu hstream'
      · have hopen := hrecv.opened_fetched hu
        refine ⟨done, f, rest, hfs, hdone, hopen.delivery_seen hbody, ?_⟩
        rw [hopen.isString_iff hbody, hrecv.fetched_behind hu, Watch.soundAt, if_neg hstep]
        exact hnote
      · rw [hsuspend] at hrun
        exact absurd hrun (by decide)
    · exact absurd hcall (by simp)

/-- A message of three bytes in a buffer of 16. -/
theorem text_terminated_hey :
    ∃ v, (WsRecv.upgraded Frame.masked.bytes).wakeCall (fun _ => 0) .base = some v ∧
      v.IsString [72, 101, 121] := by
  have hsome : ((WsRecv.upgraded Frame.masked.bytes).wakeCall (fun _ => 0) .base).isSome = true := by
    decide
  obtain ⟨v, hcall⟩ := Option.isSome_iff_exists.mp hsome
  have hstream : (WsRecv.upgraded Frame.masked.bytes).unread ++ [] = stream [Frame.masked] := rfl
  obtain ⟨done, f, todo, hfs, -, -, hiff⟩ := text_terminated_iff
    (t := ⟨{ conn := .upgraded Frame.masked.bytes, future := [] }, false⟩)
    (WsRecv.upgraded_ready Frame.masked.bytes) hstream (.nil _) (by decide) (by decide) hcall
  obtain ⟨rfl, rfl⟩ : done = [] ∧ Frame.masked = f := by
    cases done with
    | nil => exact ⟨rfl, (List.cons.inj hfs).1⟩
    | cons g done => simp at hfs
  exact ⟨v, hcall, hiff.mpr (by decide)⟩

/-- A masked text of 300 bytes. -/
def Frame.long : Frame where
  first := 0x81
  form := .medium
  key := some [55, 250, 33, 61]
  payload := List.replicate 300 97
  fits := Nat.lt_of_le_of_lt (Nat.le_of_eq List.length_replicate) (show 300 < 65536 by decide)
  keyLen := by simp

/-- A connection that has been upgraded and has 256 bytes of buffer. -/
def WsRecv.upgraded256 (unread : List UInt8) : WsRecv where
  sd := 4
  recv := .alloc 256
  unread := unread

/-- The message is longer than the buffer, and the byte that `realloc` adds is not NUL. -/
theorem text_not_terminated :
    ¬ ∀ (fs : List Frame) (conn : WsRecv) (future : List UInt8) (as : List LinkAction) (l : Link)
      (e : Events) (junk : Nat → UInt8) (v : WsRecv),
      conn.Ready → conn.unread ++ future = stream fs →
      Exec Link.step beginOk { conn, future } as l → beginOk l (.wake e junk) →
      (l.step (.wake e junk)).isSome → l.conn.wakeCall junk e = some v →
      v.IsString v.delivery.data := by
  intro hall
  have hready : (WsRecv.upgraded256 Frame.long.bytes).Ready :=
    ⟨rfl, fun h => UInt32.lt_irrefl 0 h, TstData.alloc_wf 256, by decide⟩
  have hrun : ((WsRecv.upgraded256 Frame.long.bytes).wakeCall (fun _ => 1) .base).any
      (fun v => decide (v.recv.s[v.dataPos + v.info.dataLen]? = some 1)) = true := by
    decide +kernel
  obtain ⟨v, hcall, hone⟩ := (Option.any_eq_true ..).mp hrun
  have hstring := hall [Frame.long] (.upgraded256 Frame.long.bytes) [] [] _ .base (fun _ => 1) v
    hready rfl (.nil _) (by decide +kernel) (by decide +kernel) hcall
  have hnul := load_eq_ok hstring.nul
  rw [of_decide_eq_true hone] at hnul
  exact absurd hnul (by decide)

end Tst
