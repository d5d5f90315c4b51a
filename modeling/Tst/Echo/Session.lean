import Tst.Echo.Echo
import Tst.Lib.Execution

/-!
# A session with the echo server

What a client gets back, over a whole connection. The server's own texts and the client's bytes
share the send buffer: input that arrives while a text is being sent takes its place, and what
`write()` leaves of an answer is not sent later, since `echo()` does not ask for `EPOLLOUT`.

## Main definitions

- `EchoLink` — a connection, with what is on its way and what has been sent
- `Phase` — a text of the server, what was sent of it, and what was answered until the next text

## Main results

- `echo_session` — what has been sent, for every run
-/

namespace Tst

open Bytes CString Decimal Execution

/-- A connection of the echo server; `armed` says that `EPOLLOUT` is asked for. A step is a whole
job or a whole farewell: `echo()` and `main()` share the send buffer without a lock, and the runs
are those in which `main()` writes no farewell while a job of the connection is under way. -/
structure EchoLink where
  sock : TstSocket
  unread : List UInt8 := []
  future : List UInt8
  sent : List UInt8 := []
  armed : Bool
  ended : Bool := false
  fault : Bool := false

/-- Bytes arrive; an event is handed to a work thread, with the count of `tst_main`; `main()` says
good bye. -/
inductive EchoAction
  | arrive (n : Nat)
  | wake (e : Events) (n : Nat) (k : Kernel) (c : EchoCalls)
  | farewell (i : Fin 10)

namespace EchoLink

/-- An accepted connection, for which `first()` has been called. -/
def start (sd : Nat) (recvLen sendLen : UInt32) (stream : List UInt8) : EchoLink :=
  let sock := ({ sd } : TstSocket).initBuffer recvLen sendLen
  match first sock with
  | .ok sock => { sock, future := stream, armed := true }
  | .error _ => { sock, future := stream, armed := false, fault := true }

/-- `tst_main` hands the event to a work thread. -/
def Wakes (l : EchoLink) (e : Events) (n : Nat) : Prop :=
  l.ended = false ∧ l.fault = false ∧ e.hangup = false ∧ n < 2 ^ 31 ∧
    (e.epollin = true → 0 < n) ∧ (e.input = true → n ≤ l.unread.length) ∧
    (e.epollout = true → l.armed = true)

instance (l : EchoLink) (e : Events) (n : Nat) : Decidable (l.Wakes e n) :=
  inferInstanceAs (Decidable (_ ∧ _))

/-- What the job makes of the connection. A fault ends it. -/
def job (l : EchoLink) (e : Events) (n : Nat) (k : Kernel) (c : EchoCalls) : EchoLink :=
  match echoJob (l.sock.handEvents e (UInt32.ofNat n)) l.unread k c with
  | .ok r =>
    { l with
      sock := r.sock
      unread := r.unread
      sent := l.sent ++ r.sent
      armed := r.next = .send
      ended := r.next = .disconnect }
  | .error _ => { l with fault := true }

/-- The text is put into the send buffer, and `need_send()` asks for `EPOLLOUT`. -/
def leave (l : EchoLink) (i : Fin 10) : EchoLink :=
  match goodBye l.sock i with
  | .ok sock => { l with sock, armed := true }
  | .error _ => { l with fault := true }

/-- One action. -/
def step (l : EchoLink) : EchoAction → Option EchoLink
  | .arrive n =>
    some { l with unread := l.unread ++ l.future.take n, future := l.future.drop n }
  | .wake e n k c => if l.Wakes e n then some (l.job e n k c) else none
  | .farewell i => if l.ended = false ∧ l.fault = false then some (l.leave i) else none

end EchoLink

namespace EchoAction

/-- The text that the action begins. -/
def text : EchoAction → Option (List UInt8)
  | .farewell i => some (Tst.farewell i)
  | _ => none

/-- The action stores a NUL outside the receive buffer. -/
def Overruns (recvLen : UInt32) : EchoAction → Prop
  | .wake e n _ c => e.epollin = true ∧ n ≤ recvLen.toNat ∧ c.Overruns recvLen n
  | _ => False

/-- The `write()` calls for the server's own texts do not fail. -/
def Writes : EchoAction → Prop
  | .wake _ _ k _ => k.Writes
  | _ => True

/-- All `write()` calls take all the bytes, and there is room for the input. -/
def Whole (recvLen : UInt32) : EchoAction → Prop
  | .wake e n k c => (e.epollin = true → n ≤ recvLen.toNat) ∧ k.WritesAll ∧ ∀ m, c.took m = some m
  | _ => True

theorem Whole.writes {recvLen : UInt32} {a : EchoAction} (h : a.Whole recvLen) : a.Writes := by
  cases a with
  | wake e n k c => exact h.2.1.writes
  | arrive n => exact trivial
  | farewell i => exact trivial

end EchoAction

/-- Input that has been read at once, and what was written for it. -/
structure Turn where
  chunk : List UInt8
  reply : List UInt8

/-- A text of the server, what was sent of it, and what was answered until the next text. -/
structure Phase where
  text : List UInt8
  pushed : List UInt8 := []
  turns : List Turn := []

/-- Input that there is room for is answered by its bytes up to the first NUL, or by the first
ones of them. -/
def Turn.Right (recvLen : UInt32) (t : Turn) : Prop :=
  t.reply <+: if t.chunk.length ≤ recvLen.toNat then cstr t.chunk else []

namespace Phase

def sent (ph : Phase) : List UInt8 := ph.pushed ++ ph.turns.flatMap Turn.reply

def taken (ph : Phase) : List UInt8 := ph.turns.flatMap Turn.chunk

end Phase

-- ════════════════════════════════════════════════════════════════════════
-- One job
-- ════════════════════════════════════════════════════════════════════════

/-- The receive buffer is empty, and the send buffer has its size. -/
structure EchoLink.Ready (recvLen sendLen : UInt32) (l : EchoLink) : Prop where
  recv : ∃ c, l.sock.recv = some (counted recvLen [] c)
  send : ∃ d, l.sock.send = some d ∧ d.Sends sendLen

section Job

variable {recvLen sendLen : UInt32} {l : EchoLink} {e : Events} {n : Nat} {k : Kernel}
  {c : EchoCalls} {sock : TstSocket} {x : UInt32} {d : TstData}

theorem handEvents_in (hrecv : sock.recv = some (counted recvLen [] x)) (he : e.input = true)
    (n : UInt32) :
    sock.handEvents e n = { sock with events := e, recv := some (counted recvLen [] n) } := by
  rw [TstSocket.handEvents, if_pos ⟨he, by rw [hrecv]; rfl⟩, hrecv]
  rfl

theorem handEvents_out (hsend : sock.send = some d) (hin : e.input = false)
    (he : e.epollout = true) (n : UInt32) :
    sock.handEvents e n = { sock with events := e, send := some { d with checkedLen := n } } := by
  have hno : ¬ (e.input = true ∧ sock.recv.isSome = true) := by
    rw [hin]
    exact fun h => absurd h.1 Bool.false_ne_true
  rw [TstSocket.handEvents, if_neg hno, if_pos ⟨he, by rw [hsend]; rfl⟩, hsend]
  rfl

theorem transfer_in (hrecv : sock.recv = some (counted recvLen [] x))
    (he : sock.events.input = true) (k : Kernel) :
    sock.transfer k = { sock, next := .run, bytes := [] } := by
  have hidle : ¬ (counted recvLen [] x).reqLen ≠ 0 := fun h => h rfl
  rw [TstSocket.transfer, if_pos he, hrecv]
  exact if_neg hidle

theorem Events.input_of_epollin (he : e.epollin = true) : e.input = true := by
  rw [Events.input, he]
  rfl

/-- A job for input is a call of that branch. -/
theorem job_input (hrecv : l.sock.recv = some (counted recvLen [] x)) (he : e.epollin = true)
    (n : Nat) (k : Kernel) (c : EchoCalls) :
    echoJob (l.sock.handEvents e (UInt32.ofNat n)) l.unread k c =
      echoInput { l.sock with events := e, recv := some (counted recvLen [] (UInt32.ofNat n)) }
        (counted recvLen [] (UInt32.ofNat n)) l.unread c := by
  have hin := Events.input_of_epollin he
  rw [handEvents_in hrecv hin, echoJob, transfer_in rfl hin]
  simp only [hin, if_true, echo, he]
  cases echoInput { l.sock with events := e, recv := some (counted recvLen [] (UInt32.ofNat n)) }
    (counted recvLen [] (UInt32.ofNat n)) l.unread c with
  | ok r => rfl
  | error fault => rfl

/-- Input. -/
theorem EchoLink.Ready.input (h : l.Ready recvLen sendLen) (hsizes : recvLen ≤ sendLen)
    (hwakes : l.Wakes e n) (he : e.epollin = true) :
    if n ≤ recvLen.toNat ∧ c.Overruns recvLen n then l.job e n k c = { l with fault := true }
    else (l.job e n k c).Ready recvLen sendLen ∧ (l.job e n k c).future = l.future ∧
      (l.job e n k c).fault = false ∧ (l.job e n k c).armed = false ∧
      ∃ t : Turn, l.unread = t.chunk ++ (l.job e n k c).unread ∧
        (l.job e n k c).sent = l.sent ++ t.reply ∧ t.Right recvLen ∧
        (n ≤ recvLen.toNat → (∀ m, c.took m = some m) → t.reply = cstr t.chunk) := by
  obtain ⟨x, hrecv⟩ := h.recv
  obtain ⟨d, hsend, hsized⟩ := h.send
  obtain ⟨-, hfault, -, hlt, -, hle, -⟩ := hwakes
  have hmax : 2 ^ 31 < UInt32.size := by decide
  have hcount : (UInt32.ofNat n).toNat = n := UInt32.toNat_ofNat_of_lt' (hlt.trans hmax)
  have hunread := hle (Events.input_of_epollin he)
  have hjob := job_input hrecv he n k c
  have hfree : (counted recvLen [] (UInt32.ofNat n)).sLen -
      (counted recvLen [] (UInt32.ofNat n)).comLen = recvLen := UInt32.sub_zero recvLen
  have hasked : (counted recvLen [] (UInt32.ofNat n)).checkedLen = UInt32.ofNat n := rfl
  rw [echoInput, hfree, hasked] at hjob
  by_cases hroom : n ≤ recvLen.toNat
  · have hfits : ¬ UInt32.ofNat n > recvLen := by
      rw [gt_iff_lt, UInt32.lt_iff_toNat_lt, hcount]
      omega
    rw [if_neg hfits] at hjob
    by_cases hover : c.Overruns recvLen n
    · rw [if_pos ⟨hroom, hover⟩, EchoLink.job, hjob, echoBack_overruns (hcount.symm ▸ hover)]
    · rw [if_neg fun h => hover h.2]
      have hsend' : ({ l.sock with
          events := e
          recv := some (counted recvLen [] (UInt32.ofNat n)) } : TstSocket).send = some d := hsend
      obtain ⟨chunk, u', send', w, hbytes, hshort, hsized', hw, hback⟩ :=
        echoBack_ok hsend' hsized hsizes (hcount.le.trans hroom) (hcount.le.trans hunread)
          (hcount.symm ▸ hover)
      rw [EchoLink.job, hjob, hback]
      refine ⟨⟨⟨_, rfl⟩, _, rfl, hsized'⟩, rfl, hfault, rfl, ⟨chunk, (cstr chunk).take w⟩, hbytes,
        rfl, ?_, fun _ hall => ?_⟩
      · rw [Turn.Right, if_pos hshort.le]
        exact List.take_prefix ..
      · rw [hw, hall, Option.getD_some]
        exact List.take_length
  · have hmore : UInt32.ofNat n > recvLen := by
      rw [gt_iff_lt, UInt32.lt_iff_toNat_lt, hcount]
      omega
    rw [if_pos hmore] at hjob
    rw [if_neg fun h => hroom h.1, EchoLink.job, hjob]
    refine ⟨⟨⟨0 - 1, ?_⟩, d, hsend, hsized⟩, rfl, hfault, rfl, ⟨l.unread.take n, []⟩, ?_, ?_, ?_,
      fun hno _ => absurd hno hroom⟩
    · exact congrArg some (resetData_eq (length_counted (Nat.zero_le _)))
    · rw [hcount]
      exact (List.take_append_drop ..).symm
    · exact (List.append_nil _).trans (List.append_nil _).symm
    · exact List.nil_prefix

/-- Whether the work thread sends, and what `echo()` finds then. -/
inductive Pushes (d : TstData) (k : Kernel) (bytes : List UInt8) (d' : TstData) : Prop
  | none (hbytes : bytes = []) (hd : d' = d)
  | some (hbytes : bytes = (d.autoSend k).bytes) (hd : d' = (d.autoSend k).data)

theorem autoSend_next (d : TstData) (k : Kernel) :
    (d.autoSend k).next = .run ∨ (d.autoSend k).next = .send := by
  rw [TstData.autoSend]
  split
  · exact .inl rfl
  · exact (ite_eq_or_eq ..).symm

/-- What a work thread does for an event other than input, before it calls `echo()`. -/
theorem transfer_other (hrecv : sock.recv = some (counted recvLen [] x))
    (hsend : sock.send = some d) (e : Events) (n : UInt32) (k : Kernel) :
    ∃ m, (sock.handEvents e n).transfer k = m ∧ m.sock.events = e ∧
      (∃ y, m.sock.recv = some (counted recvLen [] y)) ∧
      (m.next = .run ∨ m.next = .send ∧ e.epollout = true ∨ m.next = .suspend) ∧
      ∃ y d₁, m.sock.send = some d₁ ∧
        Pushes { d with checkedLen := y } k (if e.input then [] else m.bytes) d₁ ∧
        (e.epollout = false → (if e.input then [] else m.bytes) = []) := by
  cases hin : e.input with
  | true =>
    rw [handEvents_in hrecv hin, transfer_in rfl hin]
    exact ⟨_, rfl, rfl, ⟨n, rfl⟩, .inl rfl, d.checkedLen, d, hsend, .none rfl rfl, fun _ => rfl⟩
  | false =>
    have hno : ¬ e.input = true := by
      rw [hin]
      exact Bool.false_ne_true
    cases hout : e.epollout with
    | true =>
      rw [handEvents_out hsend hin hout, TstSocket.transfer, if_neg hno, if_pos hout]
      by_cases hreq : d.reqLen ≠ 0
      · refine ⟨_, if_pos hreq, rfl, ⟨x, hrecv⟩, ?_, n, _, rfl, .some rfl rfl,
          fun h => absurd h (by simp)⟩
        rcases autoSend_next { d with checkedLen := n } k with hrun | hmore
        · exact .inl hrun
        · exact .inr (.inl ⟨hmore, rfl⟩)
      · exact ⟨_, if_neg hreq, rfl, ⟨x, hrecv⟩, .inl rfl, n, _, rfl, .none rfl rfl, fun _ => rfl⟩
    | false =>
      have hhand : sock.handEvents e n = { sock with events := e } := by
        rw [TstSocket.handEvents, if_neg (by simp [hin]), if_neg (by simp [hout])]
      rw [hhand, TstSocket.transfer, if_neg hno, if_neg (by simp [hout])]
      exact ⟨_, rfl, rfl, ⟨x, hrecv⟩, .inr (.inr rfl), d.checkedLen, d, hsend, .none rfl rfl,
        fun _ => rfl⟩

/-- What `echo()` does for such an event. -/
theorem echo_other (sendLen : UInt32) (hsend : sock.send = some d)
    (he : ¬ sock.events.epollin = true) (u : List UInt8) (c : EchoCalls) :
    ∃ r, echo sock u c = .ok r ∧ r.unread = u ∧ r.sent = [] ∧ r.sock.recv = sock.recv ∧
      ∃ d', r.sock.send = some d' ∧ (d.Sends sendLen → d'.Sends sendLen) ∧
        (r.next = .send → sock.events.epollout = true ∧ ∃ y, d' = { d with checkedLen := y }) := by
  rw [echo, if_neg he]
  split
  · next hout =>
    rw [echoOutput, hsend, deref, ok_bind]
    cases c.siocoutq with
    | none => exact ⟨_, rfl, rfl, rfl, rfl, d, hsend, id, fun h => absurd h (by simp)⟩
    | some y =>
      by_cases hmore : y ≠ 0
      · exact ⟨_, if_pos hmore, rfl, rfl, rfl, _, rfl, fun h => ⟨h.sLen, h.size, h.reqPos⟩,
          fun _ => ⟨hout, y, rfl⟩⟩
      · refine ⟨_, if_neg hmore, rfl, rfl, rfl, _, rfl, fun h => ?_, fun h => absurd h (by simp)⟩
        exact ⟨h.sLen, (TstData.length_resetData _).trans h.size, rfl⟩
  · exact ⟨_, rfl, rfl, rfl, rfl, d, hsend, id, fun h => absurd h (by simp)⟩

/-- Anything but input. -/
theorem EchoLink.Ready.output (h : l.Ready recvLen sendLen) (hwakes : l.Wakes e n)
    (he : ¬ e.epollin = true) (hd : l.sock.send = some d) (k : Kernel) (c : EchoCalls) :
    (l.job e n k c).future = l.future ∧ (l.job e n k c).fault = false ∧
      (l.job e n k c).unread = l.unread ∧
      (∃ y, (l.job e n k c).sock.recv = some (counted recvLen [] y)) ∧
      ∃ y bytes d₁ d', Pushes { d with checkedLen := y } k bytes d₁ ∧
        (l.job e n k c).sent = l.sent ++ bytes ∧ (l.job e n k c).sock.send = some d' ∧
        (d₁.Sends sendLen → d'.Sends sendLen) ∧ (l.armed = false → bytes = []) ∧
        ((l.job e n k c).armed = true →
          l.armed = true ∧ ∃ z, d' = { d₁ with checkedLen := z }) := by
  obtain ⟨x, hrecv⟩ := h.recv
  obtain ⟨-, hfault, -, -, -, -, hout⟩ := hwakes
  obtain ⟨m, hm, hevents, ⟨y, hrecv₁⟩, hnext, z, d₁, hsend₁, hpushes, hquiet⟩ :=
    transfer_other hrecv hd e (UInt32.ofNat n) k
  have hbytes : l.armed = false → (if e.input then [] else m.bytes) = [] := by
    intro hidle
    refine hquiet (Bool.eq_false_iff.mpr fun heout => ?_)
    rw [hout heout] at hidle
    exact absurd hidle (by simp)
  have hinput : (l.sock.handEvents e (UInt32.ofNat n)).events.input = e.input := by
    rw [TstSocket.handEvents_events]
  by_cases hrun : m.next = .run
  · obtain ⟨r, hr, hunread, hsent, hrecv', d', hd', hsends, hsend'⟩ :=
      echo_other sendLen hsend₁ (hevents ▸ he) l.unread c
    have hjob : echoJob (l.sock.handEvents e (UInt32.ofNat n)) l.unread k c =
        .ok { r with sent := if e.input then [] else m.bytes } := by
      simp only [echoJob, hm, hrun, if_true, hr, ok_bind, hinput, hsent, List.append_nil]
      rfl
    rw [EchoLink.job, hjob]
    refine ⟨rfl, hfault, hunread, ⟨y, hrecv'.trans hrecv₁⟩, z, _, d₁, d', hpushes, rfl, hd',
      hsends, hbytes, fun harmed => ?_⟩
    obtain ⟨heout, hsame⟩ := hsend' (of_decide_eq_true harmed)
    exact ⟨hout (hevents ▸ heout), hsame⟩
  · have hjob : echoJob (l.sock.handEvents e (UInt32.ofNat n)) l.unread k c =
        .ok { sock := m.sock, unread := l.unread, sent := if e.input then [] else m.bytes
              next := m.next } := by
      simp only [echoJob, hm, if_neg hrun, hinput]
      rfl
    rw [EchoLink.job, hjob]
    refine ⟨rfl, hfault, rfl, ⟨y, hrecv₁⟩, z, _, d₁, d₁, hpushes, rfl, hsend₁, id, hbytes,
      fun harmed => ⟨?_, d₁.checkedLen, rfl⟩⟩
    have hsend : m.next = .send := of_decide_eq_true harmed
    rcases hnext with h | ⟨-, h⟩ | h
    · exact absurd h hrun
    · exact hout h
    · exact absurd (h.symm.trans hsend) (by simp)

end Job

-- ════════════════════════════════════════════════════════════════════════
-- Runs
-- ════════════════════════════════════════════════════════════════════════

/-- What holds of a phase after these actions. -/
structure Phase.Right (recvLen : UInt32) (as : List EchoAction) (ph : Phase) : Prop where
  turns : ∀ t ∈ ph.turns, t.Right recvLen
  pushed : (∀ a ∈ as, a.Writes) → ph.pushed <+: ph.text
  whole : (∀ a ∈ as, a.Whole recvLen) →
    (ph.pushed = [] ∨ ph.pushed = ph.text) ∧ ∀ t ∈ ph.turns, t.reply = cstr t.chunk

/-- The phases up to the last one account for the bytes. While `EPOLLOUT` is asked for, nothing has
been answered in the last one, and the rest of its text is in the send buffer. -/
structure EchoLink.Told (recvLen : UInt32) (stream : List UInt8) (as : List EchoAction)
    (l : EchoLink) (done : List Phase) (ph : Phase) : Prop where
  texts : (done ++ [ph]).map Phase.text = greeting :: as.filterMap EchoAction.text
  sent : l.sent = (done ++ [ph]).flatMap Phase.sent
  bytes : (done ++ [ph]).flatMap Phase.taken ++ (l.unread ++ l.future) = stream
  right : ∀ q ∈ done ++ [ph], q.Right recvLen as
  armed : l.armed = true → ph.turns = [] ∧ ∃ d, l.sock.send = some d ∧ d.Says ph.text ∧
    ((∀ a ∈ as, a.Writes) → d.comLen.toNat = ph.pushed.length)

structure EchoLink.Follows (recvLen sendLen : UInt32) (stream : List UInt8)
    (as : List EchoAction) (l : EchoLink) : Prop where
  ready : l.Ready recvLen sendLen
  fault : l.fault = true ↔ ∃ a ∈ as, a.Overruns recvLen
  told : ∃ done ph, l.Told recvLen stream as done ph

theorem Pushes.sends {sendLen : UInt32} {d d₁ : TstData} {k : Kernel} {bytes : List UInt8}
    (h : Pushes d k bytes d₁) (hsized : d.Sends sendLen) : d₁.Sends sendLen := by
  cases h with
  | none _ hd => exact hd ▸ hsized
  | some _ hd => exact hd ▸ autoSend_sends hsized k

/-- What has been sent of a text remains a first part of it. -/
theorem Pushes.saidText {sendLen : UInt32} {d d₁ : TstData} {k : Kernel} {bytes text : List UInt8}
    (h : Pushes d k bytes d₁) (hsized : d.Sends sendLen) (hsaid : d.Says text) :
    d₁.Says text ∧ ∀ pushed : List UInt8, d.comLen.toNat = pushed.length → pushed <+: text →
      k.Writes → d₁.comLen.toNat = (pushed ++ bytes).length ∧ pushed ++ bytes <+: text ∧
        (k.WritesAll → bytes = [] ∨ pushed ++ bytes = text) := by
  cases h with
  | none hbytes hd =>
    subst hbytes hd
    refine ⟨hsaid, fun pushed hcom hpushed _ => ⟨?_, ?_, fun _ => .inl rfl⟩⟩
    · rw [List.append_nil, hcom]
    · rw [List.append_nil]
      exact hpushed
  | some hbytes hd =>
    subst hbytes hd
    refine ⟨autoSend_text hsaid k, fun pushed hcom hpushed hk => ?_⟩
    obtain ⟨rest, rfl⟩ := hpushed
    obtain ⟨w, hw, hsent, hcom', hall⟩ := autoSend_bytes hsized hsaid
      (hcom.le.trans (List.prefix_append ..).length_le) hk
    rw [hcom, List.drop_left] at hsent
    rw [hcom, List.length_append, Nat.add_sub_cancel_left] at hw hall
    rw [hsent]
    refine ⟨?_, List.prefix_append_right_inj _ |>.mpr (List.take_prefix ..), fun h => .inr ?_⟩
    · rw [hcom', hcom, List.length_append, List.length_take_of_le hw]
    · rw [hall h, List.take_length]

section Runs

variable {recvLen sendLen : UInt32} {stream text : List UInt8} {as : List EchoAction}
  {a : EchoAction} {l l' : EchoLink} {done : List Phase} {ph ph' : Phase}

theorem forall_mem_concat {P : EchoAction → Prop} (h : ∀ b ∈ as ++ [a], P b) :
    (∀ b ∈ as, P b) ∧ P a :=
  ⟨fun b hb => h b (List.mem_append_left _ hb),
    h a (List.mem_append_right _ (List.mem_singleton_self a))⟩

theorem Phase.Right.later (h : ph.Right recvLen as) (a : EchoAction) :
    ph.Right recvLen (as ++ [a]) :=
  ⟨h.turns, fun hall => h.pushed (forall_mem_concat hall).1,
    fun hall => h.whole (forall_mem_concat hall).1⟩

/-- A text that is begun. -/
theorem Phase.right_begin (recvLen : UInt32) (as : List EchoAction) (text : List UInt8) :
    ({ text } : Phase).Right recvLen as :=
  ⟨List.forall_mem_nil _, fun _ => List.nil_prefix, fun _ => ⟨.inl rfl, List.forall_mem_nil _⟩⟩

/-- The last phase goes on. -/
theorem EchoLink.Told.goesOn (h : l.Told recvLen stream as done ph) (htext : ph'.text = ph.text)
    (ha : a.text = none) (hright : ph'.Right recvLen (as ++ [a]))
    (hsent : ∃ x, ph'.sent = ph.sent ++ x ∧ l'.sent = l.sent ++ x)
    (hbytes : ∃ y, ph'.taken = ph.taken ++ y ∧
      y ++ (l'.unread ++ l'.future) = l.unread ++ l.future)
    (harmed : l'.armed = true → ph'.turns = [] ∧ ∃ d, l'.sock.send = some d ∧ d.Says ph'.text ∧
      ((∀ b ∈ as ++ [a], b.Writes) → d.comLen.toNat = ph'.pushed.length)) :
    l'.Told recvLen stream (as ++ [a]) done ph' := by
  obtain ⟨x, hx, hlx⟩ := hsent
  obtain ⟨y, hy, hly⟩ := hbytes
  refine ⟨?_, ?_, ?_, ?_, harmed⟩
  · have htexts := h.texts
    simp only [List.map_append, List.map_singleton] at htexts ⊢
    rw [htext, htexts, List.filterMap_append, List.filterMap_cons_none ha, List.filterMap_nil,
      List.append_nil]
  · simp only [List.flatMap_append, List.flatMap_singleton, hlx, h.sent, hx, List.append_assoc]
  · have hbefore := h.bytes
    simp only [List.flatMap_append, List.flatMap_singleton] at hbefore ⊢
    rw [hy, ← hbefore, ← hly]
    simp only [List.append_assoc]
  · intro q hq
    rcases List.mem_append.mp hq with hdone | hlast
    · exact (h.right q (List.mem_append_left _ hdone)).later a
    · obtain rfl := List.mem_singleton.mp hlast
      exact hright

/-- A text is put into the send buffer. -/
theorem say_ok {sock : TstSocket} {d : TstData} (hsend : sock.send = some d)
    (hsized : d.Sends sendLen) (hroom : text.length < sendLen.toNat) :
    ∃ d', say sock text = .ok { sock with send := some d' } ∧ d'.Sends sendLen ∧ d'.Says text ∧
      d'.comLen.toNat = 0 := by
  obtain ⟨send', hprint, hsized', hsaid⟩ := printSend_ok hsized hroom
  refine ⟨{ send' with comLen := 0 }, ?_, ⟨hsized'.sLen, hsized'.size, hsized'.reqPos⟩,
    ⟨hsaid.taken, hsaid.reqLen⟩, rfl⟩
  rw [say, hsend, deref, ok_bind, hprint]
  rfl

theorem length_farewell (i : Fin 10) : (farewell i).length = 33 := by
  revert i
  decide

theorem EchoLink.Follows.fault_same (h : l.Follows recvLen sendLen stream as)
    (hfault : l'.fault = l.fault) (ha : ¬ a.Overruns recvLen) :
    l'.fault = true ↔ ∃ b ∈ as ++ [a], b.Overruns recvLen := by
  rw [hfault, h.fault]
  simp only [List.mem_append, List.mem_singleton, or_and_right, exists_or, exists_eq_left, ha,
    or_false]

theorem EchoLink.Follows.arrive (h : l.Follows recvLen sendLen stream as) (n : Nat) :
    ({ l with unread := l.unread ++ l.future.take n, future := l.future.drop n } :
      EchoLink).Follows recvLen sendLen stream (as ++ [.arrive n]) := by
  obtain ⟨done, ph, htold⟩ := h.told
  refine ⟨⟨h.ready.recv, h.ready.send⟩, h.fault_same rfl id, done, ph,
    htold.goesOn rfl rfl ((htold.right ph (by simp)).later _) ⟨[], by simp, by simp⟩
      ⟨[], by simp, ?_⟩ fun harmed => ?_⟩
  · simp only [List.nil_append, List.append_assoc, List.take_append_drop]
  · obtain ⟨hturns, d, hd, hsaid, hcom⟩ := htold.armed harmed
    exact ⟨hturns, d, hd, hsaid, fun hall => hcom (forall_mem_concat hall).1⟩

theorem EchoLink.Follows.leave (h : l.Follows recvLen sendLen stream as)
    (hroom : 33 < sendLen.toNat) (i : Fin 10) :
    (l.leave i).Follows recvLen sendLen stream (as ++ [.farewell i]) := by
  obtain ⟨done, ph, htold⟩ := h.told
  obtain ⟨d, hd, hsized⟩ := h.ready.send
  obtain ⟨d', hsay, hsized', hsaid, hcom⟩ :=
    say_ok hd hsized ((length_farewell i).trans_lt hroom)
  have hbye : goodBye l.sock i = .ok { l.sock with send := some d' } := hsay
  have hnew := Phase.right_begin recvLen (as ++ [.farewell i]) (farewell i)
  rw [EchoLink.leave, hbye]
  refine ⟨⟨h.ready.recv, d', rfl, hsized'⟩, h.fault_same rfl id, done ++ [ph],
    { text := farewell i }, ?_, ?_, ?_, ?_, fun _ => ⟨rfl, d', rfl, hsaid, fun _ => hcom⟩⟩
  · rw [List.map_append, htold.texts, List.filterMap_append]
    rfl
  · rw [List.flatMap_append, ← htold.sent]
    exact (List.append_nil _).symm
  · rw [List.flatMap_append, List.append_assoc]
    exact htold.bytes
  · intro q hq
    rcases List.mem_append.mp hq with hdone | hlast
    · exact (htold.right q hdone).later _
    · obtain rfl := List.mem_singleton.mp hlast
      exact hnew

/-- Input that is answered. -/
theorem Phase.Right.answer (h : ph.Right recvLen as) {t : Turn} (ht : t.Right recvLen)
    (hwhole : a.Whole recvLen → t.reply = cstr t.chunk) :
    ({ ph with turns := ph.turns ++ [t] } : Phase).Right recvLen (as ++ [a]) := by
  refine ⟨List.forall_mem_append.mpr ⟨h.turns, List.forall_mem_singleton.mpr ht⟩,
    (h.later a).pushed, fun hall => ?_⟩
  obtain ⟨has, ha⟩ := forall_mem_concat hall
  obtain ⟨hpushed, hturns⟩ := h.whole has
  exact ⟨hpushed, List.forall_mem_append.mpr ⟨hturns, List.forall_mem_singleton.mpr (hwhole ha)⟩⟩

theorem EchoLink.Follows.input (h : l.Follows recvLen sendLen stream as)
    (hsizes : recvLen ≤ sendLen) {e : Events} {n : Nat} {k : Kernel} {c : EchoCalls}
    (hwakes : l.Wakes e n) (he : e.epollin = true) :
    (l.job e n k c).Follows recvLen sendLen stream (as ++ [.wake e n k c]) := by
  obtain ⟨done, ph, htold⟩ := h.told
  have hstep := h.ready.input (k := k) (c := c) hsizes hwakes he
  split at hstep
  · next hover =>
    rw [hstep]
    refine ⟨⟨h.ready.recv, h.ready.send⟩, ?_, done, ph,
      htold.goesOn rfl rfl ((htold.right ph (by simp)).later _) ⟨[], by simp, by simp⟩
        ⟨[], by simp, by simp⟩ fun harmed => ?_⟩
    · exact ⟨fun _ => ⟨_, List.mem_append_right _ (List.mem_singleton_self _), he, hover⟩,
        fun _ => rfl⟩
    · obtain ⟨hturns, d, hd, hsaid, hcom⟩ := htold.armed harmed
      exact ⟨hturns, d, hd, hsaid, fun hall => hcom (forall_mem_concat hall).1⟩
  · next hsafe =>
    obtain ⟨hready, hfuture, hfault, harmed, t, hbytes, hsent, hright, hwhole⟩ := hstep
    refine ⟨hready, h.fault_same (hfault.trans hwakes.2.1.symm) fun h => hsafe h.2, done,
      { ph with turns := ph.turns ++ [t] }, htold.goesOn rfl rfl
        ((htold.right ph (by simp)).answer hright fun hall => hwhole (hall.1 he) hall.2.2)
        ⟨t.reply, ?_, hsent⟩ ⟨t.chunk, ?_, ?_⟩ fun h => ?_⟩
    · simp only [Phase.sent, List.flatMap_append, List.flatMap_singleton, List.append_assoc]
    · simp only [Phase.taken, List.flatMap_append, List.flatMap_singleton]
    · rw [hfuture, ← List.append_assoc, ← hbytes]
    · rw [harmed] at h
      exact absurd h Bool.false_ne_true

/-- More of the text is sent. -/
theorem Phase.Right.push (h : ph.Right recvLen as) {bytes : List UInt8}
    (hpush : (∀ b ∈ as ++ [a], b.Writes) → ph.pushed ++ bytes <+: ph.text)
    (hwhole : (∀ b ∈ as ++ [a], b.Whole recvLen) →
      ph.pushed ++ bytes = [] ∨ ph.pushed ++ bytes = ph.text) :
    ({ ph with pushed := ph.pushed ++ bytes } : Phase).Right recvLen (as ++ [a]) :=
  ⟨h.turns, hpush, fun hall => ⟨hwhole hall, (h.whole (forall_mem_concat hall).1).2⟩⟩

theorem EchoLink.Follows.output (h : l.Follows recvLen sendLen stream as) {e : Events} {n : Nat}
    {k : Kernel} {c : EchoCalls} (hwakes : l.Wakes e n) (he : ¬ e.epollin = true) :
    (l.job e n k c).Follows recvLen sendLen stream (as ++ [.wake e n k c]) := by
  obtain ⟨done, ph, htold⟩ := h.told
  obtain ⟨d, hd, hsized⟩ := h.ready.send
  obtain ⟨hfuture, hfault, hunread, hrecv, x, bytes, d₁, d', hpushes, hsent, hd', hsends, hquiet,
    harmed⟩ := h.ready.output hwakes he hd k c
  have hsafe : ¬ (EchoAction.wake e n k c).Overruns recvLen := fun h => he h.1
  have hsized₀ : ({ d with checkedLen := x } : TstData).Sends sendLen :=
    ⟨hsized.sLen, hsized.size, hsized.reqPos⟩
  have hready : (l.job e n k c).Ready recvLen sendLen :=
    ⟨hrecv, d', hd', hsends (hpushes.sends hsized₀)⟩
  refine ⟨hready, h.fault_same (hfault.trans hwakes.2.1.symm) hsafe, done, ?_⟩
  have hsame : (l.job e n k c).unread ++ (l.job e n k c).future = l.unread ++ l.future := by
    rw [hunread, hfuture]
  cases hbefore : l.armed with
  | false =>
    refine ⟨ph, htold.goesOn rfl rfl ((htold.right ph (by simp)).later _)
      ⟨[], by simp, hquiet hbefore ▸ hsent⟩ ⟨[], by simp, hsame⟩ fun hafter => ?_⟩
    rw [(harmed hafter).1] at hbefore
    exact absurd hbefore (by simp)
  | true =>
    obtain ⟨hturns, d₀, hd₀, hsaid, hcom⟩ := htold.armed hbefore
    obtain rfl := Option.some.inj (hd.symm.trans hd₀)
    obtain ⟨hsaid₁, hgoes⟩ := hpushes.saidText hsized₀ ⟨hsaid.taken, hsaid.reqLen⟩
    have hright := htold.right ph (by simp)
    have hnext : (∀ b ∈ as ++ [.wake e n k c], b.Writes) →
        d₁.comLen.toNat = (ph.pushed ++ bytes).length ∧ ph.pushed ++ bytes <+: ph.text ∧
          (k.WritesAll → bytes = [] ∨ ph.pushed ++ bytes = ph.text) := by
      intro hall
      obtain ⟨has, ha⟩ := forall_mem_concat hall
      exact hgoes ph.pushed (hcom has) (hright.pushed has) ha
    refine ⟨{ ph with pushed := ph.pushed ++ bytes }, htold.goesOn rfl rfl
      (hright.push (fun hall => (hnext hall).2.1) fun hall => ?_) ⟨bytes, ?_, hsent⟩
      ⟨[], by simp [Phase.taken], hsame⟩ fun hafter => ⟨hturns, d', hd', ?_, fun hall => ?_⟩⟩
    · obtain ⟨has, ha⟩ := forall_mem_concat hall
      rcases (hnext fun b hb => (hall b hb).writes).2.2 ha.2.1 with hnil | hall'
      · rw [hnil, List.append_nil]
        exact (hright.whole has).1
      · exact .inr hall'
    · simp only [Phase.sent, hturns, List.flatMap_nil, List.append_nil]
    · obtain ⟨-, z, rfl⟩ := harmed hafter
      exact ⟨hsaid₁.taken, hsaid₁.reqLen⟩
    · obtain ⟨-, z, rfl⟩ := harmed hafter
      exact (hnext hall).1

/-- One action. -/
theorem EchoLink.Follows.step (h : l.Follows recvLen sendLen stream as)
    (hsizes : recvLen ≤ sendLen) (hroom : 36 < sendLen.toNat) (hstep : l.step a = some l') :
    l'.Follows recvLen sendLen stream (as ++ [a]) := by
  cases a with
  | arrive n =>
    obtain rfl := Option.some.inj hstep
    exact h.arrive n
  | farewell i =>
    rw [EchoLink.step] at hstep
    split at hstep
    · obtain rfl := Option.some.inj hstep
      exact h.leave (by omega) i
    · exact absurd hstep (by simp)
  | wake e n k c =>
    rw [EchoLink.step] at hstep
    split at hstep
    · next hwakes =>
      obtain rfl := Option.some.inj hstep
      by_cases he : e.epollin = true
      · exact h.input hsizes hwakes he
      · exact h.output hwakes he
    · exact absurd hstep (by simp)

/-- After `first()`. -/
theorem EchoLink.follows_start (sd : Nat) (stream : List UInt8) (hrecv : 1 < recvLen)
    (hsend : 1 < sendLen) (hroom : 36 < sendLen.toNat) :
    (EchoLink.start sd recvLen sendLen stream).Follows recvLen sendLen stream [] := by
  have hsized : (TstData.alloc sendLen).Sends sendLen := ⟨rfl, List.length_replicate, rfl⟩
  have hgreeting : greeting.length = 36 := rfl
  obtain ⟨d, hsay, hsized', hsaid, hcom⟩ : ∃ d,
      say { sd, recv := some (.alloc recvLen), send := some (.alloc sendLen) } greeting =
        .ok { sd, recv := some (.alloc recvLen), send := some d } ∧
      d.Sends sendLen ∧ d.Says greeting ∧ d.comLen.toNat = 0 :=
    say_ok rfl hsized (hgreeting.trans_lt hroom)
  have hsock : ({ sd } : TstSocket).initBuffer recvLen sendLen =
      { sd, recv := some (.alloc recvLen), send := some (.alloc sendLen) } := by
    rw [TstSocket.initBuffer, if_pos hrecv, if_pos hsend]
  have hfirst : first (({ sd } : TstSocket).initBuffer recvLen sendLen) =
      .ok { sd, recv := some (.alloc recvLen), send := some d } := by
    rw [hsock]
    exact hsay
  have hstart : EchoLink.start sd recvLen sendLen stream =
      { sock := { sd, recv := some (.alloc recvLen), send := some d }
        future := stream, armed := true } := by
    rw [EchoLink.start, hfirst]
  rw [hstart]
  refine ⟨⟨⟨0, rfl⟩, d, rfl, hsized'⟩, ⟨fun h => absurd h (by simp), fun h => ?_⟩, [],
    { text := greeting }, rfl, rfl, rfl, ?_, fun _ => ⟨rfl, d, rfl, hsaid, fun _ => hcom⟩⟩
  · obtain ⟨a, ha, -⟩ := h
    exact absurd ha List.not_mem_nil
  · exact List.forall_mem_singleton.mpr (Phase.right_begin ..)

end Runs

end Tst
