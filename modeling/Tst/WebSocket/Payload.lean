import Tst.WebSocket.Frame

/-!
# Reception of one frame

What `websocket()` and the worker make of a frame whose header and, if it has a payload,
first payload byte are there when `websocket()` begins it. The rest of the payload may
arrive in any pieces.

## Main definitions

- `WsRecv.Ready` — the connection waits for a frame
- `WsRecv.Receiving` — the worker is to fetch the rest of a payload
- `Advances` — a wake-up has brought a frame further or handed it over

## Main results

- `WsRecv.Ready.advances`, `WsRecv.Receiving.advances` — every wake-up does
-/

namespace Tst

open Bytes ByteOrder

/-- The frame is what the user function finds. -/
structure Frame.Received (f : Frame) (d : Delivery) : Prop where
  opcode : d.info.opcode = f.first &&& 0x0F
  isText : d.info.isText = true ↔ f.first &&& 0x0F = 0x1
  dataLen : d.info.dataLen = f.payload.length
  data : d.data = f.payload

namespace WsRecv

/-- The connection waits for a frame, and nothing is left to the worker. Its buffer has
held an upgrade request, so there is room for a header. -/
structure Ready (w : WsRecv) : Prop where
  step : w.info.step = 0
  idle : ¬ w.recv.Pending
  wf : w.recv.WF
  room : 14 ≤ w.recv.sLen.toNat

/-- A connection that has been upgraded and has 16 bytes of buffer. -/
def upgraded (unread : List UInt8) : WsRecv where
  sd := 4
  recv := .alloc 16
  unread := unread

theorem upgraded_ready (unread : List UInt8) : (upgraded unread).Ready where
  step := rfl
  idle := fun h => UInt32.lt_irrefl 0 h
  wf := TstData.alloc_wf 16
  room := show 14 ≤ (16 : UInt32).toNat by decide

/-- The header of `f` has been read, and there is room for the payload. -/
structure Opened (f : Frame) (w : WsRecv) : Prop where
  opcode : w.info.opcode = f.first &&& 0x0F
  isText : w.info.isText = true ↔ f.first &&& 0x0F = 0x1
  dataLen : w.info.dataLen = f.payload.length
  isMasked : w.info.isMasked = f.key.isSome
  mask : ∀ k ∈ f.key, w.info.mask = k
  data : w.info.data = some 0
  step : w.info.step = 1
  wf : w.recv.WF
  room : 14 ≤ w.recv.sLen.toNat
  fits : f.payload.length ≤ w.recv.sLen.toNat

/-- The worker is to fetch `more`, the rest of the payload of `f`. -/
structure Receiving (f : Frame) (w : WsRecv) (more : List UInt8) : Prop where
  opened : Opened f w
  pending : w.recv.Pending
  total : w.recv.reqPos.toNat + w.recv.reqLen.toNat = f.payload.length
  body : w.recv.s.take w.recv.pos ++ more = f.body

end WsRecv

/-- The frame has been handed to the user function, and `rest` is still to be read. -/
structure Handed (f : Frame) (rest : List UInt8) (r : WsResult) : Prop where
  next : r.next = .suspend
  delivered : ∃ d, r.delivered = [d] ∧ f.Received d
  ready : r.conn.Ready
  unread : r.conn.unread = rest

/-- A wake-up has brought the frame further, or handed it to the user function. What is
then still to be read, with the bytes `future` that have not arrived, is the rest of the
frame and `tail`. -/
inductive Advances (f : Frame) (future tail : List UInt8) (r : WsResult) : Prop
  | suspended (hnext : r.next = .suspend) (hnone : r.delivered = []) (more : List UInt8)
      (hrecv : r.conn.Receiving f more) (hstream : r.conn.unread ++ future = more ++ tail)
  | handed (rest : List UInt8) (h : Handed f rest r) (hstream : rest ++ future = tail)

/-- The user function returns `tst_suspend`. -/
def alwaysSuspend : WebsocketFunc := fun _ => .suspend

-- ════════════════════════════════════════════════════════════════════════
-- The buffer for the payload
-- ════════════════════════════════════════════════════════════════════════

namespace WsRecv

variable {f : Frame} {w : WsRecv} {junk : Nat → UInt8} {e : Events} {more future tail : List UInt8}

theorem grow_wf (d : TstData) (junk : Nat → UInt8) {n : Nat} (hn : n < 2 ^ 32) :
    (grow d junk n).WF ∧ (grow d junk n).sLen.toNat = n := by
  have hlen : (grow d junk n).sLen.toNat = n := by
    rw [grow, UInt32.toNat_ofNat']
    exact Nat.mod_eq_of_lt hn
  refine ⟨?_, hlen⟩
  rw [TstData.WF, hlen]
  simp only [grow, List.length_append, List.length_take, List.length_map, List.length_range]
  omega

theorem resetData_wf {d : TstData} (h : d.WF) : d.resetData.WF := by
  simpa [TstData.WF] using h

/-- After the header there is room for the payload and the mask is known. -/
theorem opened_openPayload {w₀ : WsRecv} {u : List UInt8} (hw₀ : w₀.Ready)
    (hread : HasRead w₀ w f.header u) (hinfo : w.info = f.info w₀.info) (junk : Nat → UInt8) :
    Opened f (w.openPayload junk f.maskPos) ∧ (w.openPayload junk f.maskPos).unread = u := by
  have hwf : w.recv.WF := by
    have := hw₀.wf
    rw [TstData.WF, hread.sLen, hread.length]
    exact this
  have hroom : 14 ≤ w.recv.sLen.toNat := hread.sLen ▸ hw₀.room
  have hsmall : f.payload.length < 2 ^ 32 := Nat.lt_of_le_of_lt f.fits.le (by decide)
  have hmasked : w.info.isMasked = f.key.isSome := by
    rw [hinfo, ← f.start_isMasked w₀.info]
    rfl
  have hlen : w.info.dataLen = f.payload.length := by rw [hinfo]; rfl
  have hmask : ∀ k ∈ f.key, window w.recv.s f.maskPos 4 = k := by
    intro k hk
    have hk4 := f.keyLen k hk
    have hkey : f.key = some k := hk
    have hpos : f.header = [f.first, f.second] ++ f.form.ext f.payload.length ++ k := by
      rw [Frame.header, hkey, Option.getD_some]
    have hwhere : ([f.first, f.second] ++ f.form.ext f.payload.length).length = f.maskPos := by
      simp only [Frame.maskPos, List.length_append, List.length_cons, List.length_nil]
    have hend : f.maskPos + 4 ≤ f.header.length :=
      Nat.le_of_eq (by rw [hpos, List.length_append, hwhere, hk4])
    rw [hread.window hend, hpos, window, ← hwhere, List.drop_left, ← hk4, List.take_length]
  refine ⟨⟨?_, ?_, hlen, hmasked, ?_, rfl, rfl, ?_, ?_, ?_⟩, hread.unread⟩
  · rw [openPayload, hinfo]
    rfl
  · rw [openPayload, hinfo]
    exact decide_eq_true_iff
  · intro k hk
    have hsome : w.info.isMasked = true := by rw [hmasked, Option.isSome_iff_exists]; exact ⟨k, hk⟩
    simp only [openPayload, hsome, if_true]
    exact hmask k hk
  -- the buffer has grown, or was large enough
  · simp only [openPayload, hlen]
    split
    · exact resetData_wf (grow_wf _ _ hsmall).1
    · exact resetData_wf hwf
  · simp only [openPayload, hlen, TstData.resetData_sLen]
    split
    · next hgrow =>
      rw [(grow_wf _ _ hsmall).2]
      omega
    · exact hroom
  · simp only [openPayload, hlen, TstData.resetData_sLen]
    split
    · exact Nat.le_of_eq (grow_wf _ _ hsmall).2.symm
    · omega

/-- The first `read()` of the payload takes what is there. -/
theorem opened_readFirst (h : Opened f w) (hu : f.payload = [] ∨ w.unread ≠ []) :
    Opened f (w.readFirst f.payload.length) ∧
      (w.readFirst f.payload.length).unread = w.unread.drop f.payload.length ∧
      (w.readFirst f.payload.length).recv.comLen.toNat =
        (w.unread.take f.payload.length).length ∧
      (w.readFirst f.payload.length).recv.s.take (w.unread.take f.payload.length).length =
        w.unread.take f.payload.length := by
  have hsome : ¬ (0 < f.payload.length ∧ w.unread = []) := by
    rintro ⟨hpos, hnil⟩
    rcases hu with hempty | hne
    · simp [hempty] at hpos
    · exact hne hnil
  have hwf : w.recv.sLen.toNat ≤ w.recv.s.length := h.wf
  have hfits := h.fits
  have hle : 0 + (w.unread.take f.payload.length).length ≤ w.recv.s.length := by
    simp only [List.length_take]
    omega
  have hsmall : (0 : UInt32).toNat + (w.unread.take f.payload.length).length < 2 ^ 32 := by
    have := w.recv.sLen.toNat_lt
    simp only [List.length_take, UInt32.toNat_zero]
    omega
  rw [readFirst, read, if_neg hsome]
  refine ⟨⟨h.opcode, h.isText, h.dataLen, h.isMasked, h.mask, h.data, h.step, ?_, h.room,
    h.fits⟩, rfl, ?_, ?_⟩
  · simpa [TstData.WF] using hwf
  · simpa using toNat_addResult_some hsmall
  · simpa using take_splice_end hle

theorem Ready.reset (hwf : w.recv.WF) (hroom : 14 ≤ w.recv.sLen.toNat) : w.reset.Ready where
  step := rfl
  idle := fun h => UInt32.lt_irrefl 0 h
  wf := resetData_wf hwf
  room := hroom

/-- The connection when the payload has been unmasked. -/
def unmasked (w : WsRecv) : WsRecv :=
  if w.info.isMasked then
    { w with recv := { w.recv with s := unmask w.info.mask w.info.dataLen w.recv.s } }
  else w

@[simp] theorem unmasked_info (w : WsRecv) : w.unmasked.info = w.info := by
  rw [unmasked]
  split <;> rfl

@[simp] theorem unmasked_unread (w : WsRecv) : w.unmasked.unread = w.unread := by
  rw [unmasked]
  split <;> rfl

theorem unmasked_wf (h : w.recv.WF) : w.unmasked.recv.WF := by
  rw [unmasked]
  split
  · rwa [TstData.WF, ← unmask_length w.info.mask w.info.dataLen] at h
  · exact h

theorem unmasked_sLen (w : WsRecv) : w.unmasked.recv.sLen = w.recv.sLen := by
  rw [unmasked]
  split <;> rfl

/-- A complete payload is unmasked to what it was before it was masked. -/
theorem Opened.take_unmasked (h : Opened f w) (hbody : w.recv.s.take f.payload.length = f.body) :
    w.unmasked.recv.s.take f.payload.length = f.payload := by
  cases hkey : f.key with
  | none =>
    have hmasked : ¬ w.info.isMasked = true := by rw [h.isMasked, hkey]; exact Bool.false_ne_true
    rw [unmasked, if_neg hmasked, hbody, Frame.body, hkey]
  | some k =>
    have hmasked : w.info.isMasked = true := by rw [h.isMasked, hkey]; rfl
    rw [unmasked, if_pos hmasked, h.dataLen, h.mask k hkey, take_unmask, hbody, Frame.body, hkey]
    exact unmask_unmask ..

/-- A complete payload is handed over as it was before it was masked. -/
theorem Opened.finish (h : Opened f w) (hbody : w.recv.s.take f.payload.length = f.body) :
    Handed f w.unread (w.finish (some alwaysSuspend)) := by
  have hfinish : w.finish (some alwaysSuspend) =
      { conn := w.unmasked.reset
        next := .suspend
        delivered := [⟨w.unmasked.info, window w.unmasked.recv.s
          (w.unmasked.info.data.getD 0) w.unmasked.info.dataLen⟩] } := rfl
  have hdata : window w.unmasked.recv.s (w.unmasked.info.data.getD 0) w.unmasked.info.dataLen =
      f.payload := by
    rw [unmasked_info, h.data, h.dataLen, Option.getD_some, window, List.drop_zero,
      h.take_unmasked hbody]
  have hreceived : f.Received ⟨w.unmasked.info, window w.unmasked.recv.s
      (w.unmasked.info.data.getD 0) w.unmasked.info.dataLen⟩ := by
    rw [hdata, unmasked_info]
    exact ⟨h.opcode, h.isText, h.dataLen, rfl⟩
  rw [hfinish]
  exact ⟨rfl, ⟨_, rfl, hreceived⟩, .reset (unmasked_wf h.wf) (w.unmasked_sLen ▸ h.room),
    w.unmasked_unread⟩

-- ════════════════════════════════════════════════════════════════════════
-- The first wake-up of a frame
-- ════════════════════════════════════════════════════════════════════════

/-- Two ways to cut one stream: the shorter head is a prefix of the longer one. -/
theorem exists_rest {u x b t : List UInt8} (h : u ++ x = b ++ t) (hle : u.length ≤ b.length) :
    ∃ m, b = u ++ m ∧ x = m ++ t := by
  rcases List.append_eq_append_iff.mp h with hfirst | ⟨m, rfl, rfl⟩
  · exact hfirst
  · rw [List.length_append] at hle
    obtain rfl : m = [] := List.length_eq_zero_iff.mp (by omega)
    exact ⟨[], by simp, by simp⟩

/-- The header has been read, and what there is of the payload. -/
def begun (w : WsRecv) (junk : Nat → UInt8) : WsRecv :=
  (w.readStart.readLen.1.openPayload junk w.readStart.readLen.2).readFirst
    w.readStart.readLen.1.info.dataLen

/-- A frame of which enough has arrived: its header is read, and what there is of the payload. -/
theorem Ready.opened_begun {u : List UInt8} (hw : w.Ready) (hu : w.unread = f.header ++ u)
    (hfirst : f.payload = [] ∨ u ≠ []) (junk : Nat → UInt8) :
    Opened f (w.begun junk) ∧ (w.begun junk).unread = u.drop f.payload.length ∧
      (w.begun junk).recv.s.take (u.take f.payload.length).length = u.take f.payload.length ∧
      (w.begun junk).recv.comLen.toNat = (u.take f.payload.length).length := by
  have hwf : w.recv.sLen.toNat ≤ w.recv.s.length := hw.wf
  have hroom := hw.room
  obtain ⟨hread, hinfo, hpos⟩ := read_header hu (by omega)
  have hlen : w.readStart.readLen.1.info.dataLen = f.payload.length := by rw [hinfo]; rfl
  obtain ⟨hopen, hrest⟩ := opened_openPayload hw hread hinfo junk
  obtain ⟨hopen', hunread, hcom, hbytes⟩ := opened_readFirst hopen (by rwa [hrest])
  rw [hrest] at hunread hcom hbytes
  rw [begun, hpos, hlen]
  exact ⟨hopen', hunread, hbytes, hcom⟩

/-- The length is not refused, and the payload is complete if all of it has arrived. -/
theorem Ready.begun_complete {u : List UInt8} (hw : w.Ready) (hu : w.unread = f.header ++ u)
    (hfirst : f.payload = [] ∨ u ≠ []) (junk : Nat → UInt8) :
    ¬ (w.readStart.readLen.2 = 10 ∧ w.readStart.readLen.1.info.dataLen > 10485760) ∧
      ((w.begun junk).recv.comLen.toNat < (w.begun junk).info.dataLen ↔
        u.length < f.payload.length) := by
  have hwf : w.recv.sLen.toNat ≤ w.recv.s.length := hw.wf
  have hroom := hw.room
  have hlimit := f.fits.le
  obtain ⟨-, hinfo, -⟩ := read_header hu (by omega)
  have hlen : w.readStart.readLen.1.info.dataLen = f.payload.length := by rw [hinfo]; rfl
  obtain ⟨hopen, -, -, hcom⟩ := hw.opened_begun hu hfirst junk
  constructor
  · rw [hlen]
    omega
  · rw [hcom, hopen.dataLen, List.length_take]
    omega

/-- `websocket()` begins a frame of which enough has arrived. -/
theorem Ready.websocket_begun {u : List UInt8} (hw : w.Ready) (hu : w.unread = f.header ++ u)
    (hfirst : f.payload = [] ∨ u ≠ []) (junk : Nat → UInt8) (func : Option WebsocketFunc) :
    w.websocket junk func = if u.length < f.payload.length then
      { conn := (w.begun junk).armPayload, next := .suspend } else (w.begun junk).finish func := by
  obtain ⟨hsmall, hshort⟩ := hw.begun_complete hu hfirst junk
  rw [WsRecv.websocket, if_pos hw.step]
  dsimp only
  rw [if_neg hsmall]
  exact if_congr hshort rfl rfl

/-- `websocket()` begins a frame of which enough has arrived: it reads the header and what
there is of the payload. -/
theorem Ready.websocket_eq {u : List UInt8} (hw : w.Ready) (hu : w.unread = f.header ++ u)
    (hfirst : f.payload = [] ∨ u ≠ []) (junk : Nat → UInt8) (func : Option WebsocketFunc) :
    ∃ w', Opened f w' ∧ w'.unread = u.drop f.payload.length ∧
      w'.recv.s.take (u.take f.payload.length).length = u.take f.payload.length ∧
      w'.recv.comLen.toNat = (u.take f.payload.length).length ∧
      w.websocket junk func = if u.length < f.payload.length then
        { conn := w'.armPayload, next := .suspend } else w'.finish func := by
  obtain ⟨hopen, hunread, hbytes, hcom⟩ := hw.opened_begun hu hfirst junk
  exact ⟨_, hopen, hunread, hbytes, hcom, hw.websocket_begun hu hfirst junk func⟩

/-- `websocket()` begins a frame. -/
theorem Ready.websocket {u : List UInt8} (hw : w.Ready) (hu : w.unread = f.header ++ u)
    (hfirst : f.payload = [] ∨ u ≠ []) (hstream : u ++ future = f.body ++ tail) :
    Advances f future tail (w.websocket junk (some alwaysSuspend)) := by
  obtain ⟨w', hopen, hunread, hbytes, hcom, heq⟩ :=
    hw.websocket_eq hu hfirst junk (some alwaysSuspend)
  rw [heq]
  by_cases hshort : u.length < f.payload.length
  · -- all that is there has been read, and more is to come
    obtain ⟨m, hm, hfuture⟩ := exists_rest hstream (by rw [f.length_body]; omega)
    rw [List.take_of_length_le (Nat.le_of_lt hshort)] at hcom hbytes
    rw [List.drop_eq_nil_of_le (Nat.le_of_lt hshort)] at hunread
    have hlimit := f.fits.le
    have hroomy : f.payload.length - u.length < 2 ^ 32 := by omega
    rw [if_pos hshort]
    refine .suspended rfl rfl m ⟨⟨hopen.opcode, hopen.isText, hopen.dataLen, hopen.isMasked,
      hopen.mask, hopen.data, hopen.step, hopen.wf, hopen.room, hopen.fits⟩, ?_, ?_, ?_⟩ ?_
    · simp only [TstData.Pending, armPayload, hopen.dataLen, hcom, UInt32.lt_iff_toNat_lt,
        UInt32.toNat_ofNat', UInt32.toNat_zero, Nat.mod_eq_of_lt hroomy]
      omega
    · simp only [armPayload, hopen.dataLen, hcom, UInt32.toNat_ofNat', Nat.mod_eq_of_lt hroomy]
      omega
    · simp only [armPayload, TstData.pos, hcom, UInt32.toNat_zero, Nat.add_zero, hbytes]
      exact hm.symm
    · simp only [armPayload, hunread, List.nil_append]
      exact hfuture
  · obtain ⟨m, hm, htail⟩ := exists_rest hstream.symm (by rw [f.length_body]; omega)
    have hbody : u.take f.payload.length = f.body := by rw [hm, ← f.length_body, List.take_left]
    have hrest : w'.unread = m := by rw [hunread, hm, ← f.length_body, List.drop_left]
    rw [hbody, f.length_body] at hbytes
    rw [if_neg hshort]
    exact .handed m (hrest ▸ hopen.finish hbytes) htail.symm

/-- The buffer as the worker finds it. -/
def taken (w : WsRecv) : TstData :=
  { w.recv with checkedLen := UInt32.ofNat w.unread.length }

/-- The worker has nothing to fetch. -/
theorem transfer_idle (hin : e.input = true) (hidle : ¬w.recv.Pending) :
    (TstSocket.handEvents { sd := w.sd, recv := some w.recv } e
      (UInt32.ofNat w.unread.length)).transfer w.kernel =
        { sock := { sd := w.sd, events := e, recv := some w.taken }, next := .run, bytes := [] } := by
  have hge : w.recv.comLen ≥ w.recv.reqLen := UInt32.not_lt.mp hidle
  by_cases hreq : w.recv.reqLen = 0
  · simp [TstSocket.handEvents, TstSocket.transfer, hin, hreq, taken]
  · simp [TstSocket.handEvents, TstSocket.transfer, hin, hreq, TstData.autoRecv, hge, taken]

/-- The worker calls the user function. -/
theorem Ready.wake_eq (hw : w.Ready) (hin : e.input = true) (func : Option WebsocketFunc) :
    w.wake junk func e =
      { w with recv := { w.recv with checkedLen := UInt32.ofNat w.unread.length } }.websocket
        junk func := by
  rw [wake]
  simp only [transfer_idle hin hw.idle, Option.getD_some]
  rfl

/-- The first wake-up of a frame. -/
theorem Ready.advances {u : List UInt8} (hw : w.Ready) (hin : e.input = true)
    (hu : w.unread = f.header ++ u) (hfirst : f.payload = [] ∨ u ≠ [])
    (hstream : u ++ future = f.body ++ tail) :
    Advances f future tail (w.wake junk (some alwaysSuspend) e) := by
  rw [hw.wake_eq hin]
  exact Ready.websocket ⟨hw.step, hw.idle, hw.wf, hw.room⟩ hu hfirst hstream

-- ════════════════════════════════════════════════════════════════════════
-- The further wake-ups
-- ════════════════════════════════════════════════════════════════════════

/-- The automatic transfer takes its bytes from the front of those that are there, and
asks for another wake-up while the count is not reached. -/
theorem autoRecv_kernel {d : TstData} (hpend : d.Pending) (hu : w.unread ≠ []) :
    ¬ Direction.recv.Fails d w.kernel ∧ (d.autoRecv w.kernel).bytes <+: w.unread ∧
      (d.autoRecv w.kernel).data.sLen = d.sLen ∧
      ((d.autoRecv w.kernel).next = .run ∨ (d.autoRecv w.kernel).next = .suspend ∧
        (d.autoRecv w.kernel).data.Pending) := by
  have hlt : ¬ d.comLen ≥ d.reqLen := UInt32.not_le.mpr hpend
  have hread : ∀ n, w.kernel.read n = some ⟨w.unread.take n, List.length_take_le ..⟩ := by
    intro n
    simp [kernel, hu]
  refine ⟨?_, ?_⟩
  · rintro ⟨-, n, -, hnone⟩
    rw [hread] at hnone
    exact Option.some_ne_none _ hnone
  · rw [TstData.autoRecv, if_neg hlt]
    simp only [kernel] at hread ⊢
    simp only [hread, Option.map_some, Option.getD_some]
    split
    · exact ⟨List.take_prefix .., rfl, .inl rfl⟩
    · next hnot => exact ⟨List.take_prefix .., rfl, .inr ⟨rfl, UInt32.not_le.mp hnot⟩⟩

/-- The connection after the automatic transfer. -/
def fetched (w : WsRecv) : WsRecv :=
  { w with
    recv := (w.taken.autoRecv w.kernel).data
    unread := w.unread.drop (w.taken.autoRecv w.kernel).bytes.length }

/-- The worker fetches what is there of the payload. -/
theorem transfer_pending (hin : e.input = true) (hpend : w.recv.Pending) :
    (TstSocket.handEvents { sd := w.sd, recv := some w.recv } e
      (UInt32.ofNat w.unread.length)).transfer w.kernel =
        { sock := { sd := w.sd, events := e, recv := some (w.taken.autoRecv w.kernel).data },
          next := (w.taken.autoRecv w.kernel).next,
          bytes := (w.taken.autoRecv w.kernel).bytes } := by
  have hreq : ¬ w.recv.reqLen = 0 := by
    intro h0
    rw [TstData.Pending, h0] at hpend
    exact UInt32.not_lt_zero hpend
  simp [TstSocket.handEvents, TstSocket.transfer, hin, hreq, taken]

theorem wake_fetched (hin : e.input = true) (hpend : w.recv.Pending)
    (func : Option WebsocketFunc) :
    w.wake junk func e = if (w.taken.autoRecv w.kernel).next = .run then
        w.fetched.websocket junk func
      else { conn := w.fetched, next := (w.taken.autoRecv w.kernel).next } := by
  rw [wake]
  simp only [transfer_pending hin hpend, Option.getD_some, fetched]

theorem Receiving.length_more (h : w.Receiving f more) :
    w.recv.pos + more.length = f.payload.length := by
  have hwf : w.recv.sLen.toNat ≤ w.recv.s.length := h.opened.wf
  have hroom := h.opened.fits
  have hcom : w.recv.comLen.toNat < w.recv.reqLen.toNat := UInt32.lt_iff_toNat_lt.mp h.pending
  have htotal := h.total
  have hpos : w.recv.pos = w.recv.reqPos.toNat + w.recv.comLen.toNat := rfl
  have hlen := congrArg List.length h.body
  rw [List.length_append, List.length_take, f.length_body] at hlen
  omega

theorem Receiving.more_ne_nil (h : w.Receiving f more) : more ≠ [] := by
  have hcom : w.recv.comLen.toNat < w.recv.reqLen.toNat := UInt32.lt_iff_toNat_lt.mp h.pending
  have htotal := h.total
  have hlen := h.length_more
  rw [TstData.pos] at hlen
  rintro rfl
  rw [List.length_nil] at hlen
  omega

/-- What the worker's transfer does with the rest of a payload. -/
theorem Receiving.autoStep (h : w.Receiving f more) (hu : w.unread ≠ []) :
    AutoStep w.taken (w.taken.autoRecv w.kernel) := by
  have hwf : w.recv.sLen.toNat ≤ w.recv.s.length := h.opened.wf
  have hroom := h.opened.fits
  have htotal := h.total
  obtain ⟨hok, -, -, -⟩ := autoRecv_kernel (d := w.taken) h.pending hu
  have hfit : w.recv.reqPos.toNat + w.recv.reqLen.toNat ≤ w.recv.s.length := by omega
  exact TstData.autoRecv_step (UInt32.le_of_lt h.pending) hfit hok

theorem Receiving.opened_fetched (h : w.Receiving f more) (hu : w.unread ≠ []) :
    Opened f w.fetched := by
  obtain ⟨-, -, hsLen, -⟩ := autoRecv_kernel (d := w.taken) h.pending hu
  refine ⟨h.opened.opcode, h.opened.isText, h.opened.dataLen, h.opened.isMasked, h.opened.mask,
    h.opened.data, h.opened.step, ?_, ?_, ?_⟩
  · rw [TstData.WF, fetched, hsLen, (h.autoStep hu).length]
    exact h.opened.wf
  · rw [fetched, hsLen]
    exact h.opened.room
  · rw [fetched, hsLen]
    exact h.opened.fits

/-- The worker's transfer completes the payload, or more of it is to come. -/
theorem Receiving.fetched_cases (h : w.Receiving f more) (hu : w.unread ≠ [])
    (hstream : w.unread ++ future = more ++ tail) :
    ((w.taken.autoRecv w.kernel).next = .run ∧ w.fetched.recv.s.take f.payload.length = f.body ∧
        w.fetched.unread ++ future = tail) ∨
      ((w.taken.autoRecv w.kernel).next = .suspend ∧
        ∃ more', w.fetched.Receiving f more' ∧ w.fetched.unread ++ future = more' ++ tail) := by
  have htotal := h.total
  have hpos : w.recv.pos = w.recv.reqPos.toNat + w.recv.comLen.toNat := rfl
  have hmore := h.length_more
  obtain ⟨-, ⟨rest, hrest⟩, -, hnext⟩ := autoRecv_kernel (d := w.taken) h.pending hu
  have hstep := h.autoStep hu
  have hbytes : (w.taken.autoRecv w.kernel).bytes.length ≤ more.length := by
    have hfit : w.recv.comLen.toNat + (w.taken.autoRecv w.kernel).bytes.length ≤
        w.recv.reqLen.toNat := hstep.room
    omega
  rw [← hrest, List.append_assoc] at hstream
  obtain ⟨more', hmore', hstream'⟩ := exists_rest hstream hbytes
  have hunread : w.fetched.unread = rest := by
    rw [fetched, ← hrest]
    exact List.drop_left ..
  have hpos' : w.fetched.recv.pos = w.recv.pos + (w.taken.autoRecv w.kernel).bytes.length := by
    rw [TstData.pos, fetched, hstep.reqPos, hstep.com, hpos, Nat.add_assoc]
    rfl
  have hbody' : w.fetched.recv.s.take w.fetched.recv.pos ++ more' = f.body := by
    have hnew : (w.fetched.recv.s.drop w.recv.pos).take
        (w.taken.autoRecv w.kernel).bytes.length = (w.taken.autoRecv w.kernel).bytes := hstep.bytes
    have hold : w.fetched.recv.s.take w.recv.pos = w.recv.s.take w.recv.pos := hstep.before
    rw [hpos', List.take_add, hnew, hold, List.append_assoc, ← hmore', h.body]
  obtain hrun | ⟨hsuspend, hpend⟩ := hnext
  · have hfull : w.fetched.recv.pos = f.payload.length := by
      have hreq : w.fetched.recv.comLen = w.fetched.recv.reqLen := hstep.next hrun
      rw [TstData.pos, hreq, ← htotal]
      change _ + (w.taken.autoRecv w.kernel).data.reqLen.toNat = _
      rw [hstep.reqLen, fetched, hstep.reqPos]
      rfl
    have hnil : more' = [] := by
      have hlen := congrArg List.length hmore'
      rw [List.length_append] at hlen
      exact List.length_eq_zero_iff.mp (by omega)
    rw [hfull, hnil, List.append_nil] at hbody'
    rw [hnil, List.nil_append] at hstream'
    exact .inl ⟨hrun, hbody', hunread ▸ hstream'⟩
  · refine .inr ⟨hsuspend, more', ⟨h.opened_fetched hu, hpend, ?_, hbody'⟩, hunread ▸ hstream'⟩
    rw [fetched, hstep.reqPos, hstep.reqLen]
    exact htotal

/-- A further wake-up of a frame. -/
theorem Receiving.advances (h : w.Receiving f more) (hin : e.input = true) (hu : w.unread ≠ [])
    (hstream : w.unread ++ future = more ++ tail) :
    Advances f future tail (w.wake junk (some alwaysSuspend) e) := by
  have hopened := h.opened_fetched hu
  rw [wake_fetched hin h.pending]
  obtain ⟨hrun, hbody, htail⟩ | ⟨hsuspend, more', hrecv, htail⟩ := h.fetched_cases hu hstream
  · -- the payload is complete
    rw [if_pos hrun, WsRecv.websocket, if_neg (by rw [hopened.step]; decide)]
    exact .handed _ (hopened.finish hbody) htail
  · rw [if_neg (by rw [hsuspend]; decide)]
    exact .suspended hsuspend rfl more' hrecv htail

end WsRecv

end Tst
