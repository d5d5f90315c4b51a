import Tst.Lib.Execution
import Tst.WebSocket.Bounds

/-!
# The size of a buffer

Everything that receives or sends trusts `s_len`. Four places allocate a buffer: the constructor
and `initBuffer()`, `addsocket()` for a socket that has none, and `websocket()` for a payload that
is longer than the buffer. Each of them is to note the size it has asked for.

## Main definitions

- `SizedSocket` — a socket, and the sizes that its buffers were allocated for
- `SizedSocket.step` — what is done with the buffers of a socket
- `SizedSocket.Right` — what is noted is what was allocated
- `NoBare` — `addsocket()` finds the buffers that it would add

## Main results

- `buffer_sizes_right` — the sizes are right in every run in which `addsocket()` adds no buffer, and
  wrong as soon as it does
-/

namespace Tst

open Execution

/-- What is noted, and what is allocated. -/
def TstData.sizes (d : TstData) : UInt32 × Nat := (d.sLen, d.s.length)

/-- A socket, and the sizes of payload that its buffers were allocated for. -/
structure SizedSocket where
  sock : TstSocket
  recvFor : Nat := 0
  sendFor : Nat := 0

/-- What is done with the buffers of a socket. -/
inductive BufferOp
  | initBuffer (recvLen sendLen : UInt32)
  /-- with `m_recv_buf_size` and `m_send_buf_size` -/
  | addsocket (recvBufSize sendBufSize : UInt32)
  /-- a call of `websocket()` with this `WS_INFO` and these bytes unread -/
  | websocket (info : WsInfo) (unread : List UInt8) (junk : Nat → UInt8)
      (func : Option WebsocketFunc)
  /-- the bytes and counters of the buffers change in any other way -/
  | use (recv send : Option TstData)

/-- The size that the receive buffer is grown to by a call of `websocket()`, if it is. -/
def WsRecv.grownTo (w : WsRecv) : Option Nat :=
  if w.info.step = 0 then
    let (w, mPos) := w.readStart.readLen
    if mPos = 10 ∧ w.info.dataLen > 10485760 then none
    else if w.info.dataLen > w.recv.sLen.toNat then some w.info.dataLen
    else none
  else none

namespace SizedSocket

/-- `TST_SOCKET_T()`. -/
def new (sd : Nat) : SizedSocket := { sock := { sd } }

/-- `initBuffer()`. -/
def initBuffer (t : SizedSocket) (recvLen sendLen : UInt32) : SizedSocket where
  sock := t.sock.initBuffer recvLen sendLen
  recvFor := if recvLen > 1 then recvLen.toNat else t.recvFor
  sendFor := if sendLen > 1 then sendLen.toNat else t.sendFor

/-- `TST_SOCKET_T(recv_len, send_len)`. -/
def newSized (sd : Nat) (recvLen sendLen : UInt32) : SizedSocket :=
  (new sd).initBuffer recvLen sendLen

/-- `addsocket()`. -/
def addsocket (t : SizedSocket) (recvBufSize sendBufSize : UInt32) : SizedSocket where
  sock := t.sock.addBuffers recvBufSize sendBufSize
  recvFor := if recvBufSize ≠ 0 ∧ t.sock.recv = none then recvBufSize.toNat else t.recvFor
  sendFor := if sendBufSize ≠ 0 ∧ t.sock.send = none then sendBufSize.toNat else t.sendFor

/-- A call of `websocket()` for the receive buffer. -/
def websocket (t : SizedSocket) (w : WsRecv) (junk : Nat → UInt8) (func : Option WebsocketFunc) :
    SizedSocket :=
  { t with
    sock := { t.sock with recv := some (w.websocket junk func).conn.recv }
    recvFor := w.grownTo.getD t.recvFor }

/-- One step. `websocket()` needs a receive buffer, and what only uses the buffers leaves their
sizes as they are. -/
def step (t : SizedSocket) : BufferOp → Option SizedSocket
  | .initBuffer recvLen sendLen => some (t.initBuffer recvLen sendLen)
  | .addsocket recvBufSize sendBufSize => some (t.addsocket recvBufSize sendBufSize)
  | .websocket info unread junk func =>
    t.sock.recv.map fun recv =>
      t.websocket { sd := t.sock.sd, recv, info, unread } junk func
  | .use recv send =>
    if recv.map TstData.sizes = t.sock.recv.map TstData.sizes ∧
        send.map TstData.sizes = t.sock.send.map TstData.sizes then
      some { t with sock := { t.sock with recv, send } }
    else none

/-- A socket as a constructor leaves it. -/
inductive Built : SizedSocket → Prop
  | new (sd : Nat) : Built (new sd)
  | newSized (sd : Nat) (recvLen sendLen : UInt32) : Built (newSized sd recvLen sendLen)

end SizedSocket

/-- The size noted is not zero and is the one that the buffer was allocated for; there is at most
one more byte. -/
structure TstData.SizedFor (d : TstData) (size : Nat) : Prop where
  ne_zero : d.sLen ≠ 0
  noted : d.sLen.toNat = size
  allocated : d.s.length = size ∨ d.s.length = size + 1

/-- The sizes noted for both buffers are right. -/
structure SizedSocket.Right (t : SizedSocket) : Prop where
  recv : ∀ d ∈ t.sock.recv, d.SizedFor t.recvFor
  send : ∀ d ∈ t.sock.send, d.SizedFor t.sendFor

/-- `addsocket()` adds no buffer: there is one, or none is wanted. -/
def NoBare (t : SizedSocket) : BufferOp → Prop
  | .addsocket recvBufSize sendBufSize =>
    (recvBufSize = 0 ∨ t.sock.recv ≠ none) ∧ (sendBufSize = 0 ∨ t.sock.send ≠ none)
  | _ => True

instance (t : SizedSocket) : (a : BufferOp) → Decidable (NoBare t a)
  | .addsocket _ _ => inferInstanceAs (Decidable ((_ ∨ _) ∧ (_ ∨ _)))
  | .initBuffer _ _ | .websocket _ _ _ _ | .use _ _ => isTrue trivial

-- ════════════════════════════════════════════════════════════════════════
-- A call of `websocket()`
-- ════════════════════════════════════════════════════════════════════════

namespace WsRecv

variable {w w' : WsRecv}

theorem Kept.sizes (h : Kept w w') : w'.recv.sizes = w.recv.sizes := by
  rw [TstData.sizes, h.sLen, h.length]
  rfl

theorem sizes_resetData (d : TstData) : d.resetData.sizes = d.sizes := by
  rw [TstData.sizes, TstData.length_resetData]
  rfl

theorem sizes_grow (d : TstData) (junk : Nat → UInt8) (n : Nat) :
    (grow d junk n).sizes = (UInt32.ofNat n, n + 1) := by
  have hlen : (grow d junk n).s.length = n + 1 := by
    simp only [grow, List.length_append, List.length_take, List.length_map, List.length_range]
    omega
  rw [TstData.sizes, hlen]
  rfl

theorem sizes_unmasked (w : WsRecv) : w.unmasked.recv.sizes = w.recv.sizes := by
  rw [unmasked]
  split
  · simp [TstData.sizes, unmask]
  · rfl

theorem sizes_finish (w : WsRecv) (func : Option WebsocketFunc) :
    (w.finish func).conn.recv.sizes = w.recv.sizes := by
  obtain hconn | hconn := w.finish_conn func
  · rw [hconn]
    exact (sizes_resetData _).trans w.sizes_unmasked
  · rw [hconn]
    exact w.sizes_unmasked

/-- What a call leaves as the sizes of the buffer. -/
theorem sizes_websocket (w : WsRecv) (junk : Nat → UInt8) (func : Option WebsocketFunc) :
    (w.websocket junk func).conn.recv.sizes =
      w.grownTo.elim w.recv.sizes fun n => (UInt32.ofNat n, n + 1) := by
  rw [websocket, grownTo]
  split
  · have hheader := ((kept_readStart w).trans (kept_readLen w.readStart)).sizes
    dsimp only
    split
    · exact hheader
    · have hopen : ((w.readStart.readLen.1.openPayload junk w.readStart.readLen.2).readFirst
          w.readStart.readLen.1.info.dataLen).recv.sizes =
          (if w.readStart.readLen.1.info.dataLen > w.readStart.readLen.1.recv.sLen.toNat then
            some w.readStart.readLen.1.info.dataLen else none).elim w.recv.sizes
            fun n => (UInt32.ofNat n, n + 1) := by
        rw [(kept_readFirst _ _).sizes, openPayload]
        split
        · exact (sizes_resetData _).trans (sizes_grow _ _ _)
        · exact (sizes_resetData _).trans hheader
      split
      · exact hopen
      · exact (sizes_finish _ func).trans hopen
  · exact sizes_finish w func

/-- A buffer is grown to a size that is not zero and below the limit. -/
theorem grownTo_le {n : Nat} (h : w.grownTo = some n) : 0 < n ∧ n ≤ 10485760 := by
  rw [grownTo] at h
  split at h
  · dsimp only at h
    split at h
    · exact absurd h (by simp)
    · next hlimit =>
      split at h
      · next hlarge =>
        obtain rfl := Option.some.inj h
        refine ⟨Nat.lt_of_le_of_lt (Nat.zero_le _) hlarge, Nat.not_lt.mp fun hbig => hlimit ?_⟩
        exact ⟨readLen_limit _ hbig, hbig⟩
      · exact absurd h (by simp)
  · exact absurd h (by simp)

end WsRecv

-- ════════════════════════════════════════════════════════════════════════
-- One step
-- ════════════════════════════════════════════════════════════════════════

namespace TstData

variable {d d' : TstData} {size : Nat}

theorem SizedFor.congr (h : d.SizedFor size) (hsizes : d'.sizes = d.sizes) : d'.SizedFor size := by
  obtain ⟨hsLen, hlength⟩ := Prod.mk.inj hsizes
  exact ⟨hsLen ▸ h.ne_zero, hsLen ▸ h.noted, hlength ▸ h.allocated⟩

theorem sizedFor_of_sizes {extra : Nat} (hpos : 0 < size) (hsmall : size < 2 ^ 32)
    (hextra : extra = 0 ∨ extra = 1) (h : d.sizes = (UInt32.ofNat size, size + extra)) :
    d.SizedFor size := by
  obtain ⟨hsLen, hlength⟩ := Prod.mk.inj h
  have hnoted : d.sLen.toNat = size := by
    rw [hsLen, UInt32.toNat_ofNat', Nat.mod_eq_of_lt hsmall]
  refine ⟨fun hzero => ?_, hnoted, ?_⟩
  · rw [hzero] at hnoted
    exact Nat.ne_of_lt hpos hnoted
  · obtain rfl | rfl := hextra
    · exact .inl hlength
    · exact .inr hlength

theorem alloc_sizedFor {n : UInt32} (hn : n ≠ 0) : (alloc n).SizedFor n.toNat :=
  ⟨hn, rfl, .inl List.length_replicate⟩

end TstData

namespace SizedSocket

variable {t t' : SizedSocket} {a : BufferOp}

theorem right_new (sd : Nat) : (new sd).Right := ⟨by simp [new], by simp [new]⟩

/-- The buffers that `initBuffer()` allocates are noted with their sizes. -/
theorem Right.initBuffer (h : t.Right) (recvLen sendLen : UInt32) :
    (t.initBuffer recvLen sendLen).Right := by
  have hone (n : UInt32) (hn : n > 1) : n ≠ 0 := by
    rintro rfl
    exact absurd hn (by decide)
  have hbuffer (n : UInt32) (b : Option TstData) (size : Nat)
      (hb : ∀ d ∈ b, d.SizedFor size) :
      ∀ d ∈ (if n > 1 then some (TstData.alloc n) else b),
        d.SizedFor (if n > 1 then n.toNat else size) := by
    intro d hd
    split at hd
    · next hn =>
      rw [if_pos hn, ← Option.some.inj hd]
      exact TstData.alloc_sizedFor (hone n hn)
    · next hn =>
      rw [if_neg hn]
      exact hb d hd
  exact ⟨hbuffer recvLen _ _ h.recv, hbuffer sendLen _ _ h.send⟩

theorem Built.right (h : Built t) : t.Right := by
  cases h with
  | new sd => exact right_new sd
  | newSized sd recvLen sendLen => exact (right_new sd).initBuffer recvLen sendLen

/-- Where `addsocket()` adds nothing, nothing changes. -/
theorem addsocket_eq {m n : UInt32} (hok : NoBare t (.addsocket m n)) : t.addsocket m n = t := by
  obtain ⟨hrecv, hsend⟩ := hok
  have hnot {n : UInt32} {b : Option TstData} (h : n = 0 ∨ b ≠ none) : ¬ (n ≠ 0 ∧ b = none) :=
    fun ⟨hn, hb⟩ => h.elim hn fun hne => hne hb
  rw [addsocket, TstSocket.addBuffers]
  dsimp only
  rw [if_neg (hnot hrecv), if_neg (hnot hrecv), if_neg (hnot hsend), if_neg (hnot hsend)]

/-- A buffer that `addsocket()` adds has no size. -/
theorem not_right_addsocket {m n : UInt32} (hbad : ¬ NoBare t (.addsocket m n)) :
    ¬ (t.addsocket m n).Right := by
  intro h
  apply hbad
  constructor
  · by_contra hrecv
    obtain ⟨hm, hnone⟩ := not_or.mp hrecv
    have hadded : m ≠ 0 ∧ t.sock.recv = none := ⟨hm, not_not.mp hnone⟩
    exact (h.recv _ (if_pos hadded)).ne_zero rfl
  · by_contra hsend
    obtain ⟨hn, hnone⟩ := not_or.mp hsend
    have hadded : n ≠ 0 ∧ t.sock.send = none := ⟨hn, not_not.mp hnone⟩
    exact (h.send _ (if_pos hadded)).ne_zero rfl

/-- A grown buffer is noted with its new size. -/
theorem Right.websocket (h : t.Right) {w : WsRecv} (hw : t.sock.recv = some w.recv)
    (junk : Nat → UInt8) (func : Option WebsocketFunc) : (t.websocket w junk func).Right where
  recv := by
    intro d hd
    obtain rfl := Option.some.inj hd
    have hsizes := w.sizes_websocket junk func
    rw [SizedSocket.websocket]
    dsimp only
    cases hgrown : w.grownTo with
    | none =>
      rw [hgrown, Option.elim_none] at hsizes
      exact (h.recv _ hw).congr hsizes
    | some n =>
      rw [hgrown, Option.elim_some] at hsizes
      obtain ⟨hpos, hle⟩ := WsRecv.grownTo_le hgrown
      exact TstData.sizedFor_of_sizes hpos (Nat.lt_of_le_of_lt hle (by decide)) (.inr rfl) hsizes
  send := h.send

/-- What uses the buffers leaves their sizes right. -/
theorem Right.use (h : t.Right) {recv send : Option TstData}
    (hrecv : recv.map TstData.sizes = t.sock.recv.map TstData.sizes)
    (hsend : send.map TstData.sizes = t.sock.send.map TstData.sizes) :
    Right { t with sock := { t.sock with recv, send } } := by
  have hbuffer {b b' : Option TstData} {size : Nat} (hb : ∀ d ∈ b, d.SizedFor size)
      (hsizes : b'.map TstData.sizes = b.map TstData.sizes) : ∀ d ∈ b', d.SizedFor size := by
    intro d hd
    obtain rfl : b' = some d := hd
    obtain ⟨d', hd', heq⟩ := Option.map_eq_some_iff.mp hsizes.symm
    exact (hb d' hd').congr heq.symm
  exact ⟨hbuffer h.recv hrecv, hbuffer h.send hsend⟩

/-- A step keeps the sizes right exactly when it adds no bare buffer. -/
theorem step_right_iff (h : t.Right) (hstep : t.step a = some t') : t'.Right ↔ NoBare t a := by
  cases a with
  | initBuffer recvLen sendLen =>
    obtain rfl := Option.some.inj hstep
    exact iff_of_true (h.initBuffer recvLen sendLen) trivial
  | addsocket m n =>
    obtain rfl := Option.some.inj hstep
    by_cases hok : NoBare t (.addsocket m n)
    · exact iff_of_true ((addsocket_eq hok).symm ▸ h) hok
    · exact iff_of_false (not_right_addsocket hok) hok
  | websocket info unread junk func =>
    obtain ⟨recv, hrecv, rfl⟩ := Option.map_eq_some_iff.mp hstep
    exact iff_of_true (h.websocket hrecv junk func) trivial
  | use recv send =>
    rw [step] at hstep
    split at hstep
    · next hsizes =>
      obtain rfl := Option.some.inj hstep
      exact iff_of_true (h.use hsizes.1 hsizes.2) trivial
    · exact absurd hstep (by simp)

end SizedSocket

-- ════════════════════════════════════════════════════════════════════════
-- Runs
-- ════════════════════════════════════════════════════════════════════════

open SizedSocket

/-- In every run from a constructor in which `addsocket()` adds no buffer: the sizes noted are not
zero and are those of the allocations, and they are still so after one more step exactly when this
does not add one either. -/
theorem buffer_sizes_right {t₀ t : SizedSocket} {as : List BufferOp} (hbuilt : Built t₀)
    (h : Exec step NoBare t₀ as t) :
    t.Right ∧ ∀ a t', t.step a = some t' → (t'.Right ↔ NoBare t a) := by
  have hright : t.Right :=
    h.invariant (fun _ _ _ hok ht hstep => (step_right_iff ht hstep).mpr hok) hbuilt.right
  exact ⟨hright, fun _ _ hstep => step_right_iff hright hstep⟩

/-- A socket with 16 bytes to receive into is added, and a frame of 20 bytes begins. -/
def growRun : List BufferOp :=
  [.addsocket 64 0, .websocket {} [0x81, 20] (fun _ => 7) none]

theorem buffer_sizes_right_grown :
    ∃ t, Exec step NoBare (newSized 4 16 16) growRun t ∧ t.recvFor = 20 ∧ t.Right := by
  have hrun : (check step NoBare (newSized 4 16 16) growRun).any
      (fun t => decide (t.recvFor = 20)) = true := by decide
  obtain ⟨t, hexec, hgrown⟩ := Exec.exists_of_check hrun
  exact ⟨t, hexec, of_decide_eq_true hgrown,
    (buffer_sizes_right (.newSized 4 16 16) hexec).1⟩

/-- A socket without buffers is added to the pool. -/
theorem buffer_size_missing :
    ¬ ∀ (t₀ t : SizedSocket) (as : List BufferOp), Built t₀ →
      run step t₀ as = some t → t.Right := by
  intro h
  have hright := h (new 4) _ [.addsocket 4096 4096] (.new 4) rfl
  exact not_right_addsocket (t := new 4) (m := 4096) (n := 4096) (by decide) hright

end Tst
