import Tst.Data

/-!
# The automatic transfers of a work thread

`tst_work` moves bytes by itself while `req_len` is set: into `recv` on an input event
and out of `send` on an output event. This module holds that part of a job, from the
choice of the branch up to the decision whether the user function is called, and what a
run of wake-ups makes of one transfer.

## Main definitions

- `TstData.autoRecv`, `TstData.autoSend` — one automatic `read()` or `write()`
- `TstSocket.transfer` — the transfer part of a job
- `Xfer.wake` — one wake-up of a transfer, with the bytes moved so far
- `Accounted` — counter, buffer and stream agree

## Main results

- `transfer_accounted_iff` — they agree after every wake-up exactly when none of the
  `read()` and `write()` calls made has failed
-/

namespace Tst

open Bytes

/-- What an automatic transfer did: the buffer after it, the value of `next`, and the
bytes that went through the socket. -/
structure Moved where
  data : TstData
  next : TstStat
  bytes : List UInt8
  deriving DecidableEq

namespace TstData

/-- The count that `tst_work` asks `read()` for when `n` bytes are unread. -/
def recvAsk (d : TstData) (n : UInt32) : UInt32 :=
  if n > d.reqLen - d.comLen then d.reqLen - d.comLen else n

/-- The branch for a receive buffer with `req_len` set. -/
def autoRecv (d : TstData) (k : Kernel) : Moved :=
  if d.comLen ≥ d.reqLen then
    { data := d, next := .run, bytes := [] }
  else
    match k.siocinq with
    | none => { data := d, next := .suspend, bytes := [] }
    | some n =>
      let ask := d.recvAsk n
      let got := (k.read ask.toNat).map (·.val)
      let com := addResult d.comLen (got.map List.length)
      let d' := { d with comLen := com, checkedLen := ask, s := splice d.s d.pos (got.getD []) }
      if com ≥ d.reqLen then
        { data := { d' with checkedLen := 0 }, next := .run, bytes := got.getD [] }
      else
        { data := d', next := .suspend, bytes := got.getD [] }

/-- The branch for a send buffer with `req_len` set. -/
def autoSend (d : TstData) (k : Kernel) : Moved :=
  if d.comLen ≥ d.reqLen then
    { data := d, next := .run, bytes := [] }
  else
    let took := (k.write (d.reqLen - d.comLen).toNat).map (·.val)
    let com := addResult d.comLen took
    { data := { d with comLen := com },
      next := if com < d.reqLen then .send else .run,
      bytes := window d.s d.pos (took.getD 0) }

end TstData

/-- What the transfer part of a job leaves: the socket and the value of `next`. -/
structure JobMoved where
  sock : TstSocket
  next : TstStat
  bytes : List UInt8

/-- `tst_work`, from the job taken up to the test for the user function. A socket whose
event bits name neither direction leaves `next` at `tst_suspend`. -/
def TstSocket.transfer (sock : TstSocket) (k : Kernel) : JobMoved :=
  if sock.events.input then
    match sock.recv with
    | some d =>
      if d.reqLen ≠ 0 then
        let r := d.autoRecv k
        { sock := { sock with recv := some r.data }, next := r.next, bytes := r.bytes }
      else { sock, next := .run, bytes := [] }
    | none => { sock, next := .run, bytes := [] }
  else if sock.events.epollout then
    match sock.send with
    | some d =>
      if d.reqLen ≠ 0 then
        let r := d.autoSend k
        { sock := { sock with send := some r.data }, next := r.next, bytes := r.bytes }
      else { sock, next := .run, bytes := [] }
    | none => { sock, next := .run, bytes := [] }
  else { sock, next := .suspend, bytes := [] }

@[simp] theorem TstSocket.transfer_sd (sock : TstSocket) (k : Kernel) :
    (sock.transfer k).sock.sd = sock.sd := by
  simp only [transfer]
  split
  · split
    · split <;> rfl
    · rfl
  · split
    · split
      · split <;> rfl
      · rfl
    · rfl

@[simp] theorem TstSocket.transfer_events (sock : TstSocket) (k : Kernel) :
    (sock.transfer k).sock.events = sock.events := by
  simp only [transfer]
  split
  · split
    · split <;> rfl
    · rfl
  · split
    · split
      · split <;> rfl
      · rfl
    · rfl

/-- The two directions of a transfer. -/
inductive Direction
  | recv | send
  deriving DecidableEq, Repr

namespace Direction

/-- The buffer of the direction. -/
def data (dir : Direction) (sock : TstSocket) : Option TstData :=
  match dir with
  | recv => sock.recv
  | send => sock.send

/-- The event bits that lead a job to the direction's branch. -/
def Wakes (dir : Direction) (e : Events) : Prop :=
  match dir with
  | recv => e.input = true
  | send => e.input = false ∧ e.epollout = true

/-- The direction's automatic transfer. -/
def auto (dir : Direction) (d : TstData) (k : Kernel) : Moved :=
  match dir with
  | recv => d.autoRecv k
  | send => d.autoSend k

/-- The `read()` or `write()` that the next wake-up makes answers -1. -/
def Fails (dir : Direction) (d : TstData) (k : Kernel) : Prop :=
  d.Pending ∧
    match dir with
    | recv => ∃ n, k.siocinq = some n ∧ k.read (d.recvAsk n).toNat = none
    | send => k.write (d.reqLen - d.comLen).toNat = none

end Direction

/-- One wake-up of a socket: the event bits that `tst_main` stored in it and the kernel's
answers to the worker. -/
structure Wake where
  events : Events
  kernel : Kernel

/-- A transfer under way: the socket, the bytes moved so far, and whether `tst_func` has
been called, which ends the transfer. -/
structure Xfer where
  sock : TstSocket
  moved : List UInt8 := []
  called : Bool := false

namespace Xfer

/-- One wake-up. After the call of `tst_func` the buffer is the user's again. -/
def wake (x : Xfer) (w : Wake) : Xfer :=
  if x.called then x
  else
    let r := { x.sock with events := w.events }.transfer w.kernel
    { sock := r.sock, moved := x.moved ++ r.bytes, called := r.next = .run }

/-- A run of wake-ups. -/
def wakes (x : Xfer) (ws : List Wake) : Xfer := ws.foldl wake x

@[simp] theorem wakes_nil (x : Xfer) : x.wakes [] = x := rfl

@[simp] theorem wakes_cons (x : Xfer) (w : Wake) (ws : List Wake) :
    x.wakes (w :: ws) = (x.wake w).wakes ws := rfl

theorem wake_of_called {x : Xfer} (h : x.called = true) (w : Wake) : x.wake w = x := by
  simp [wake, h]

end Xfer

/-- The wake-up makes a `read()` or `write()` that answers -1. -/
def FailsAt (dir : Direction) (x : Xfer) (w : Wake) : Prop :=
  x.called = false ∧ ∃ d, dir.data x.sock = some d ∧ dir.Fails d w.kernel

/-- Counter, buffer and stream agree: `com_len` does not pass `req_len` and counts the
bytes moved, these stand at `req_pos`, no other byte of the buffer has changed (in a send
buffer none at all), and `tst_func` was called only for the complete transfer. -/
structure Accounted (dir : Direction) (d₀ : TstData) (d : TstData) (moved : List UInt8)
    (called : Bool) : Prop where
  reqPos : d.reqPos = d₀.reqPos
  reqLen : d.reqLen = d₀.reqLen
  le : d.comLen ≤ d.reqLen
  count : d.comLen.toNat = moved.length
  window : window d.s d.reqPos.toNat d.comLen.toNat = moved
  length : d.s.length = d₀.s.length
  before : d.s.take d.reqPos.toNat = d₀.s.take d.reqPos.toNat
  after : d.s.drop d.pos = d₀.s.drop d.pos
  sent : dir = .send → d.s = d₀.s
  call : called = true → d.comLen = d.reqLen

/-- The accounting of a transfer that began with the buffer `d₀`. -/
def Xfer.Accounted (dir : Direction) (d₀ : TstData) (x : Xfer) : Prop :=
  ∃ d, dir.data x.sock = some d ∧ Tst.Accounted dir d₀ d x.moved x.called

-- ════════════════════════════════════════════════════════════════════════
-- One wake-up
-- ════════════════════════════════════════════════════════════════════════

theorem TstData.toNat_room {d : TstData} (h : d.comLen ≤ d.reqLen) :
    (d.reqLen - d.comLen).toNat = d.reqLen.toNat - d.comLen.toNat :=
  UInt32.toNat_sub_of_le _ _ h

theorem TstData.recvAsk_le {d : TstData} (h : d.comLen ≤ d.reqLen) (n : UInt32) :
    (d.recvAsk n).toNat ≤ d.reqLen.toNat - d.comLen.toNat := by
  rw [← d.toNat_room h, TstData.recvAsk]
  split
  · exact Nat.le_refl _
  · next hn => exact UInt32.le_iff_toNat_le.mp (UInt32.not_lt.mp hn)

/-- What one automatic transfer does to counter, buffer and stream. -/
structure AutoStep (d : TstData) (r : Moved) : Prop where
  reqPos : r.data.reqPos = d.reqPos
  reqLen : r.data.reqLen = d.reqLen
  room : d.comLen.toNat + r.bytes.length ≤ d.reqLen.toNat
  com : r.data.comLen.toNat = d.comLen.toNat + r.bytes.length
  length : r.data.s.length = d.s.length
  bytes : window r.data.s d.pos r.bytes.length = r.bytes
  before : r.data.s.take d.pos = d.s.take d.pos
  after : r.data.s.drop (d.pos + r.bytes.length) = d.s.drop (d.pos + r.bytes.length)
  next : r.next = .run → r.data.comLen = r.data.reqLen

/-- Nothing moved and nothing changed. -/
theorem AutoStep.still {d : TstData} {next : TstStat} (hle : d.comLen ≤ d.reqLen)
    (hnext : next = .run → d.comLen = d.reqLen) : AutoStep d ⟨d, next, []⟩ where
  reqPos := rfl
  reqLen := rfl
  room := UInt32.le_iff_toNat_le.mp hle
  com := rfl
  length := rfl
  bytes := window_zero _ _
  before := rfl
  after := rfl
  next := hnext

theorem TstData.comLen_eq_of_ge {d : TstData} (hle : d.comLen ≤ d.reqLen)
    (hge : d.comLen ≥ d.reqLen) : d.comLen = d.reqLen :=
  UInt32.le_antisymm hle hge

/-- The counter after a transfer of `n` bytes that fit. -/
theorem TstData.addResult_le {d : TstData} {n : Nat}
    (hn : d.comLen.toNat + n ≤ d.reqLen.toNat) :
    (addResult d.comLen (some n)).toNat = d.comLen.toNat + n ∧
      addResult d.comLen (some n) ≤ d.reqLen := by
  have hlt := d.reqLen.toNat_lt
  have hadd : (addResult d.comLen (some n)).toNat = d.comLen.toNat + n :=
    toNat_addResult_some (by omega)
  exact ⟨hadd, UInt32.le_iff_toNat_le.mpr (by omega)⟩

theorem TstData.autoRecv_step {d : TstData} {k : Kernel} (hle : d.comLen ≤ d.reqLen)
    (hfit : d.reqPos.toNat + d.reqLen.toNat ≤ d.s.length)
    (hok : ¬ Direction.recv.Fails d k) : AutoStep d (d.autoRecv k) := by
  rw [TstData.autoRecv]
  split
  · next hge => exact .still hle fun _ => comLen_eq_of_ge hle hge
  · next hlt =>
    cases hk : k.siocinq with
    | none => exact .still hle (by simp)
    | some n =>
      cases hread : k.read (d.recvAsk n).toNat with
      | none => exact absurd ⟨UInt32.not_le.mp hlt, n, hk, hread⟩ hok
      | some got =>
        obtain ⟨bs, hbs⟩ := got
        have hask := d.recvAsk_le hle n
        have hlen : d.comLen.toNat ≤ d.reqLen.toNat := UInt32.le_iff_toNat_le.mp hle
        have hroom : d.comLen.toNat + bs.length ≤ d.reqLen.toNat := by omega
        obtain ⟨hcom, hcomle⟩ := addResult_le hroom
        have hpos : d.pos + bs.length ≤ d.s.length := by rw [TstData.pos]; omega
        simp only [hread, Option.map_some, Option.getD_some]
        split
        · next hge =>
          exact ⟨rfl, rfl, hroom, hcom, by simp, window_splice hpos,
            take_splice hpos (Nat.le_refl _), drop_splice hpos (Nat.le_refl _),
            fun _ => UInt32.le_antisymm hcomle hge⟩
        · exact ⟨rfl, rfl, hroom, hcom, by simp, window_splice hpos,
            take_splice hpos (Nat.le_refl _), drop_splice hpos (Nat.le_refl _), by simp⟩

theorem TstData.autoSend_step {d : TstData} {k : Kernel} (hle : d.comLen ≤ d.reqLen)
    (hfit : d.reqPos.toNat + d.reqLen.toNat ≤ d.s.length)
    (hok : ¬ Direction.send.Fails d k) : AutoStep d (d.autoSend k) := by
  rw [TstData.autoSend]
  split
  · next hge => exact .still hle fun _ => comLen_eq_of_ge hle hge
  · next hlt =>
    cases hwrite : k.write (d.reqLen - d.comLen).toNat with
    | none => exact absurd ⟨UInt32.not_le.mp hlt, hwrite⟩ hok
    | some took =>
      have htook : took.val ≤ d.reqLen.toNat - d.comLen.toNat := by
        rw [← d.toNat_room hle]
        exact Nat.le_of_lt_succ took.isLt
      have hlen : d.comLen.toNat ≤ d.reqLen.toNat := UInt32.le_iff_toNat_le.mp hle
      have hroom : d.comLen.toNat + took.val ≤ d.reqLen.toNat := by omega
      have hbytes : (window d.s d.pos took.val).length = took.val :=
        length_window (by rw [TstData.pos]; omega)
      obtain ⟨hcom, hcomle⟩ := addResult_le hroom
      simp only [Option.map_some, Option.getD_some]
      refine ⟨rfl, rfl, ?_, ?_, rfl, ?_, rfl, rfl, ?_⟩
      · rw [hbytes]; exact hroom
      · rw [hbytes]; exact hcom
      · rw [hbytes]
      · intro hnext
        split at hnext
        · simp at hnext
        · next hnot => exact UInt32.le_antisymm hcomle (UInt32.not_lt.mp hnot)

theorem Direction.auto_step (dir : Direction) {d : TstData} {k : Kernel}
    (hle : d.comLen ≤ d.reqLen) (hfit : d.reqPos.toNat + d.reqLen.toNat ≤ d.s.length)
    (hok : ¬ dir.Fails d k) : AutoStep d (dir.auto d k) := by
  cases dir with
  | recv => exact TstData.autoRecv_step hle hfit hok
  | send => exact TstData.autoSend_step hle hfit hok

/-- A failing call moves the counter and no byte. -/
theorem Direction.auto_fails {dir : Direction} {d : TstData} {k : Kernel}
    (h : dir.Fails d k) :
    (dir.auto d k).data.comLen = addResult d.comLen none ∧ (dir.auto d k).bytes = [] := by
  cases dir with
  | recv =>
    obtain ⟨hpend, n, hk, hread⟩ := h
    have hlt : ¬ d.comLen ≥ d.reqLen := UInt32.not_le.mpr hpend
    simp only [auto, TstData.autoRecv, if_neg hlt, hk, hread, Option.map_none, Option.getD_none]
    split <;> exact ⟨rfl, rfl⟩
  | send =>
    obtain ⟨hpend, hwrite⟩ := h
    have hlt : ¬ d.comLen ≥ d.reqLen := UInt32.not_le.mpr hpend
    simp only [auto, TstData.autoSend, if_neg hlt, hwrite, Option.map_none, Option.getD_none,
      window_zero, and_self]

theorem Direction.auto_sent (d : TstData) (k : Kernel) :
    (Direction.send.auto d k).data.s = d.s := by
  simp only [auto, TstData.autoSend]
  split <;> rfl

/-- The transfer part of a job, on the buffer of its direction. -/
theorem TstSocket.transfer_data {dir : Direction} {sock : TstSocket} {d : TstData}
    {k : Kernel} (hdir : dir.Wakes sock.events) (hd : dir.data sock = some d)
    (hreq : d.reqLen ≠ 0) :
    dir.data (sock.transfer k).sock = some (dir.auto d k).data ∧
      (sock.transfer k).next = (dir.auto d k).next ∧
      (sock.transfer k).bytes = (dir.auto d k).bytes := by
  cases dir with
  | recv =>
    simp only [Direction.Wakes, Direction.data] at hdir hd
    simp [TstSocket.transfer, hdir, hd, hreq, Direction.data, Direction.auto]
  | send =>
    simp only [Direction.Wakes, Direction.data] at hdir hd
    simp [TstSocket.transfer, hdir, hd, hreq, Direction.data, Direction.auto]

-- ════════════════════════════════════════════════════════════════════════
-- Accounting over a run of wake-ups
-- ════════════════════════════════════════════════════════════════════════

section Accounting

variable {dir : Direction} {d₀ d : TstData} {moved : List UInt8}

theorem Accounted.start (hcom : d.comLen = 0) : Accounted dir d d [] false where
  reqPos := rfl
  reqLen := rfl
  le := by simp [hcom]
  count := by simp [hcom]
  window := by simp [hcom]
  length := rfl
  before := rfl
  after := rfl
  sent := fun _ => rfl
  call := by simp

/-- One automatic transfer keeps the accounting. -/
theorem Accounted.auto {k : Kernel} (h : Accounted dir d₀ d moved false)
    (hstep : AutoStep d (dir.auto d k)) :
    Accounted dir d₀ (dir.auto d k).data (moved ++ (dir.auto d k).bytes)
      ((dir.auto d k).next = .run) := by
  have hpos : d.pos = d.reqPos.toNat + d.comLen.toNat := rfl
  have hpos' : (dir.auto d k).data.pos = d.pos + (dir.auto d k).bytes.length := by
    rw [TstData.pos, hstep.reqPos, hstep.com, hpos]
    omega
  refine ⟨hstep.reqPos.trans h.reqPos, hstep.reqLen.trans h.reqLen, ?_, ?_, ?_,
    hstep.length.trans h.length, ?_, ?_, ?_, ?_⟩
  · rw [UInt32.le_iff_toNat_le, hstep.com, hstep.reqLen]
    exact hstep.room
  · rw [hstep.com, List.length_append, h.count]
  · rw [hstep.reqPos, hstep.com, ← window_append, ← hpos, hstep.bytes]
    congr 1
    -- the bytes moved before stand below the place of this transfer
    have htake : ∀ l : List UInt8, Bytes.window l d.reqPos.toNat d.comLen.toNat =
        (l.take d.pos).drop d.reqPos.toNat := by
      intro l
      rw [Bytes.window, List.drop_take, hpos]
      congr 1
      omega
    rw [htake, hstep.before, ← htake]
    exact h.window
  · have hle : d.reqPos.toNat ≤ d.pos := by omega
    have hcut := congrArg (List.take d.reqPos.toNat) hstep.before
    rw [List.take_take, List.take_take, Nat.min_eq_left hle] at hcut
    rw [hstep.reqPos, hcut]
    exact h.before
  · have hcut := congrArg (List.drop (dir.auto d k).bytes.length) h.after
    rw [List.drop_drop, List.drop_drop] at hcut
    rw [hpos', hstep.after]
    exact hcut
  · intro hdir
    subst hdir
    rw [Direction.auto_sent]
    exact h.sent rfl
  · intro hcall
    exact hstep.next (by simpa using hcall)

/-- After a failing call the counter no longer counts the bytes moved. -/
theorem Accounted.not_of_fails {k : Kernel} {called : Bool}
    (h : Accounted dir d₀ d moved false) (hf : dir.Fails d k) :
    ¬ Accounted dir d₀ (dir.auto d k).data (moved ++ (dir.auto d k).bytes) called := by
  intro h'
  obtain ⟨hcom, hbytes⟩ := Direction.auto_fails hf
  have hcount := h'.count
  rw [hcom, hbytes, List.append_nil, ← h.count] at hcount
  exact addResult_none_ne _ hcount

end Accounting

namespace Xfer

variable {dir : Direction} {d₀ : TstData} {x : Xfer} {w : Wake} {ws : List Wake}

/-- A wake-up whose calls do not fail keeps the accounting. -/
theorem Accounted.wake (h : x.Accounted dir d₀) (hw : dir.Wakes w.events)
    (hreq : d₀.reqLen ≠ 0) (hfit : d₀.reqPos.toNat + d₀.reqLen.toNat ≤ d₀.s.length)
    (hok : ¬ FailsAt dir x w) : (x.wake w).Accounted dir d₀ := by
  cases hcalled : x.called with
  | true => rwa [wake_of_called hcalled]
  | false =>
    obtain ⟨d, hd, hacc⟩ := h
    rw [hcalled] at hacc
    have hd' : dir.data { x.sock with events := w.events } = some d := by cases dir <;> exact hd
    have hstep : AutoStep d (dir.auto d w.kernel) :=
      dir.auto_step hacc.le (by rw [hacc.reqPos, hacc.reqLen, hacc.length]; exact hfit)
        fun hf => hok ⟨hcalled, d, hd, hf⟩
    obtain ⟨hdata, hnext, hbytes⟩ :=
      TstSocket.transfer_data (k := w.kernel) hw hd' (by rw [hacc.reqLen]; exact hreq)
    refine ⟨_, by simpa [Xfer.wake, hcalled] using hdata, ?_⟩
    simpa [Xfer.wake, hcalled, hnext, hbytes] using hacc.auto hstep

/-- A wake-up whose call fails breaks it. -/
theorem Accounted.not_wake (h : x.Accounted dir d₀) (hw : dir.Wakes w.events)
    (hreq : d₀.reqLen ≠ 0) (hf : FailsAt dir x w) : ¬ (x.wake w).Accounted dir d₀ := by
  obtain ⟨hcalled, d₁, hd₁, hfail⟩ := hf
  obtain ⟨d, hd, hacc⟩ := h
  obtain rfl : d₁ = d := by rw [hd₁] at hd; exact Option.some.inj hd
  rw [hcalled] at hacc
  have hd' : dir.data { x.sock with events := w.events } = some d₁ := by cases dir <;> exact hd
  obtain ⟨hdata, hnext, hbytes⟩ :=
    TstSocket.transfer_data (k := w.kernel) hw hd' (by rw [hacc.reqLen]; exact hreq)
  rintro ⟨d₂, hd₂, hacc₂⟩
  simp only [Xfer.wake, hcalled, Bool.false_eq_true, if_false] at hd₂ hacc₂
  obtain rfl : (dir.auto d₁ w.kernel).data = d₂ := by
    rw [hdata] at hd₂; exact Option.some.inj hd₂
  rw [hbytes] at hacc₂
  exact hacc.not_of_fails hfail hacc₂

/-- No `read()` or `write()` that the run makes for the transfer answers -1. -/
def Unfailing (dir : Direction) : Xfer → List Wake → Prop
  | _, [] => True
  | x, w :: ws => ¬ FailsAt dir x w ∧ Unfailing dir (x.wake w) ws

theorem Accounted.wakes_iff (h : x.Accounted dir d₀) (hws : ∀ w ∈ ws, dir.Wakes w.events)
    (hreq : d₀.reqLen ≠ 0) (hfit : d₀.reqPos.toNat + d₀.reqLen.toNat ≤ d₀.s.length) :
    (∀ vs, vs <+: ws → (x.wakes vs).Accounted dir d₀) ↔ Unfailing dir x ws := by
  induction ws generalizing x with
  | nil =>
    refine ⟨fun _ => trivial, fun _ vs hvs => ?_⟩
    rwa [List.prefix_nil.mp hvs]
  | cons w ws ih =>
    have hw := hws w (List.mem_cons_self ..)
    have hws' : ∀ v ∈ ws, dir.Wakes v.events := fun v hv => hws v (List.mem_cons_of_mem _ hv)
    constructor
    · intro hall
      have hone : (x.wake w).Accounted dir d₀ := hall [w] ⟨ws, rfl⟩
      refine ⟨fun hf => h.not_wake hw hreq hf hone, (ih hone hws').mp fun vs hvs => ?_⟩
      exact hall (w :: vs) (List.cons_prefix_cons.mpr ⟨rfl, hvs⟩)
    · rintro ⟨hok, hrest⟩ vs hvs
      have hone := h.wake hw hreq hfit hok
      cases vs with
      | nil => exact h
      | cons v vs =>
        obtain ⟨rfl, hvs'⟩ := List.cons_prefix_cons.mp hvs
        exact (ih hone hws').mpr hrest vs hvs'

end Xfer

/-- Counter, buffer and stream of an automatic transfer agree after every wake-up, and
`tst_func` is called for the complete transfer only, exactly when no `read()` or
`write()` made for it answers -1. -/
theorem transfer_accounted_iff (dir : Direction) (sock : TstSocket) (d : TstData)
    (ws : List Wake) (hd : dir.data sock = some d) (hwf : d.WF) (hcom : d.comLen = 0)
    (hreq : 0 < d.reqLen) (hfit : d.reqPos.toNat + d.reqLen.toNat ≤ d.sLen.toNat)
    (hws : ∀ w ∈ ws, dir.Wakes w.events) :
    (∀ vs, vs <+: ws → (Xfer.wakes { sock } vs).Accounted dir d) ↔
      Xfer.Unfailing dir { sock } ws := by
  have hstart : Xfer.Accounted dir d { sock } := ⟨d, hd, .start hcom⟩
  have hne : d.reqLen ≠ 0 := fun h0 => by rw [h0] at hreq; exact UInt32.lt_irrefl _ hreq
  exact hstart.wakes_iff hws hne (Nat.le_trans hfit hwf)

/-- A kernel with three bytes or three bytes of room at a time. -/
def Kernel.three : Kernel where
  siocinq := some 3
  read n := some ⟨(List.replicate 3 65).take n, by simp⟩
  write n := some ⟨min n 3, by omega⟩

/-- A receive buffer of eight bytes that waits for five of them at index 2. -/
def TstData.waiting : TstData := { TstData.alloc 8 with reqPos := 2, reqLen := 5 }

theorem transfer_accounted_three :
    (Xfer.wakes { sock := { sd := 4, recv := some .waiting } }
      [⟨.base, .three⟩, ⟨.base, .three⟩, ⟨.base, .three⟩]).Accounted .recv .waiting := by
  refine (transfer_accounted_iff .recv _ .waiting _ rfl (TstData.alloc_wf 8) rfl (by decide)
    (by decide) (by simp [Direction.Wakes, Events.input, Events.base])).mpr ?_ _ List.prefix_rfl
  have hnone : ∀ d : TstData, ¬ Direction.recv.Fails d .three := by
    rintro d ⟨-, n, -, hread⟩
    simp [Kernel.three] at hread
  exact ⟨fun ⟨_, d, _, h⟩ => hnone d h, fun ⟨_, d, _, h⟩ => hnone d h,
    fun ⟨_, d, _, h⟩ => hnone d h, trivial⟩

/-- A connection that was reset: bytes are counted as unread, but every call fails. -/
def Kernel.reset : Kernel where
  siocinq := some 3
  read _ := none
  write _ := none

/-- The accounting does not hold for every run: after one failing `read()` the counter is
`2^32 - 1` and `tst_func` is called with nothing received. -/
theorem transfer_not_accounted :
    ¬ ∀ (dir : Direction) (sock : TstSocket) (d : TstData) (ws : List Wake),
      dir.data sock = some d → d.WF → d.comLen = 0 → 0 < d.reqLen →
      d.reqPos.toNat + d.reqLen.toNat ≤ d.sLen.toNat → (∀ w ∈ ws, dir.Wakes w.events) →
      (Xfer.wakes { sock } ws).Accounted dir d := by
  intro h
  obtain ⟨d, hd, hacc⟩ := h .recv { sd := 4, recv := some .waiting } .waiting [⟨.base, .reset⟩]
    rfl (TstData.alloc_wf 8) rfl (by decide) (by decide)
    (by simp [Direction.Wakes, Events.input, Events.base])
  have hcom : (Direction.recv.data (Xfer.wakes { sock := { sd := 4, recv := some .waiting } }
      [⟨.base, .reset⟩]).sock).map (·.comLen) = some (0xffffffff : UInt32) := by decide
  rw [hd, Option.map_some, Option.some.injEq] at hcom
  have hreq : d.reqLen = 5 := hacc.reqLen
  have hle := hacc.le
  rw [hcom, hreq] at hle
  exact absurd hle (by decide)

end Tst
