import Tst.Http.Response
import Tst.Work.Message
import Tst.Work.Transfer

/-!
# The echo server

The user functions of the echo server. `echo()` reads what has been counted and writes it back up
to its first NUL, and always answers `tst_suspend` then, whatever `write()` has taken. The texts
that the program sends on its own account, the greeting of `first()` and the farewells of `main()`,
are put into the same send buffer, and a work thread writes them.

## Main definitions

- `echo`, `first`, `goodBye` — the functions
- `echoJob` — a job of a work thread
-/

namespace Tst

open Bytes CString Decimal

/-- The text of `first()`. -/
def greeting : List UInt8 :=
  [45, 45, 45, 32, 87, 101, 108, 108, 99, 111, 109, 101, 32, 116, 111, 32, 101, 99, 104, 111, 32,
    116, 101, 115, 116, 32, 115, 101, 114, 118, 101, 114, 46, 46, 46, 10]

/-- The text of `main()`, whose counter is below 10. -/
def farewell (i : Fin 10) : List UInt8 :=
  [45, 45, 45, 32, 103, 111, 111, 100, 32, 98, 121, 101, 46, 32, 97, 98, 111, 117, 116, 32] ++
    numeral i ++ [32, 115, 101, 99, 111, 110, 100, 115, 46, 46, 46, 10]

/-- The kernel's answers to the calls of `echo()`. -/
structure EchoCalls where
  /-- `read(sd, p, n)`: how many bytes it hands over, or -1 -/
  read : (n : Nat) → Option (Fin (n + 1))
  write : (n : Nat) → WriteResult n
  siocoutq : Option UInt32

namespace EchoCalls

/-- What `read()` and `write()` return when they are asked for `n` bytes. -/
def got (c : EchoCalls) (n : Nat) : Option Nat := (c.read n).map (·.val)

def took (c : EchoCalls) (n : Nat) : Option Nat := (c.write n).map (·.val)

end EchoCalls

/-- What a call leaves: the socket, the bytes that are still unread, what has been written, and
the answer. -/
structure Echoed where
  sock : TstSocket
  unread : List UInt8
  sent : List UInt8 := []
  next : TstStat := .suspend

/-- `psocket->send->req_len = sprintf(psocket->send->s, …)`. -/
def printSend (send : TstData) (text : List UInt8) : Except Fault TstData := do
  let s ← sprintf send.s 0 text
  return { send with s, reqLen := UInt32.ofNat text.length }

/-- Input that there is room for. Its bytes are read behind `com_len`, and what is a string there
is written. -/
def echoBack (sock : TstSocket) (recv : TstData) (unread : List UInt8) (c : EchoCalls) :
    Except Fault Echoed := do
  let p := recv.comLen.toNat
  let got := c.got recv.checkedLen.toNat
  let bytes := unread.take (got.getD 0)
  let s ← store (splice recv.s p bytes) (addResult recv.comLen got).toNat 0
  let text ← str s p
  let send ← printSend (← deref sock.send) text
  let took := c.took text.length
  return {
    sock := { sock with
      recv := some { recv with s }.resetData
      send := some { send with comLen := addResult 0 took } }
    unread := unread.drop bytes.length
    sent := window send.s 0 (took.getD 0) }

/-- The branch for `EPOLLIN`. Input that there is no room for is read byte by byte and is lost; the
counter of that loop runs past zero. -/
def echoInput (sock : TstSocket) (recv : TstData) (unread : List UInt8) (c : EchoCalls) :
    Except Fault Echoed :=
  if recv.checkedLen > recv.sLen - recv.comLen then
    .ok {
      sock := { sock with recv := some { recv with checkedLen := 0 - 1 }.resetData }
      unread := unread.drop recv.checkedLen.toNat }
  else echoBack sock recv unread c

/-- The branch for `EPOLLOUT`. -/
def echoOutput (sock : TstSocket) (unread : List UInt8) (c : EchoCalls) : Except Fault Echoed := do
  let send ← deref sock.send
  match c.siocoutq with
  | none => return { sock, unread, next := .disconnect }
  | some n =>
    let send := { send with checkedLen := n }
    if n ≠ 0 then return { sock := { sock with send := some send }, unread, next := .send }
    else return { sock := { sock with send := some send.resetData }, unread }

/-- `echo()`. No part of the program sets `psocket->func`. -/
def echo (sock : TstSocket) (unread : List UInt8) (c : EchoCalls) : Except Fault Echoed :=
  if sock.events.epollin then
    match sock.recv with
    | some recv => echoInput sock recv unread c
    | none => .ok { sock, unread }
  else if sock.events.epollout then echoOutput sock unread c
  else .ok { sock, unread }

/-- A text that is to be sent is put into the send buffer. -/
def say (sock : TstSocket) (text : List UInt8) : Except Fault TstSocket := do
  let send ← printSend (← deref sock.send) text
  return { sock with send := some { send with comLen := 0 } }

/-- `first()`. It answers `tst_send`. -/
def first (sock : TstSocket) : Except Fault TstSocket := say sock greeting

/-- What `main()` does for a connection before it calls `need_send()`. -/
def goodBye (sock : TstSocket) (i : Fin 10) : Except Fault TstSocket := say sock (farewell i)

/-- A job of a work thread: its own transfer, and `echo()` where that is asked for. -/
def echoJob (sock : TstSocket) (unread : List UInt8) (k : Kernel) (c : EchoCalls) :
    Except Fault Echoed := do
  let moved := sock.transfer k
  let pushed := if sock.events.input then [] else moved.bytes
  if moved.next = .run then
    let e ← echo moved.sock unread c
    return { e with sent := pushed ++ e.sent }
  else return { sock := moved.sock, unread, sent := pushed, next := moved.next }

-- ════════════════════════════════════════════════════════════════════════
-- Input
-- ════════════════════════════════════════════════════════════════════════

/-- A send buffer of that size whose transfers begin at its start. -/
structure TstData.Sends (d : TstData) (sendLen : UInt32) : Prop where
  sLen : d.sLen = sendLen
  size : d.s.length = sendLen.toNat
  reqPos : d.reqPos = 0

/-- It holds a text that is to be sent. -/
structure TstData.Says (d : TstData) (text : List UInt8) : Prop where
  taken : d.s.take text.length = text
  reqLen : d.reqLen.toNat = text.length

/-- What is in the way of reading input: `read()` fails, or fills the buffer. The NUL is stored
outside then. -/
def EchoCalls.Overruns (c : EchoCalls) (recvLen : UInt32) (n : Nat) : Prop :=
  c.got n = none ∨ c.got n = some recvLen.toNat

instance EchoCalls.decidableOverruns (c : EchoCalls) (recvLen : UInt32) (n : Nat) :
    Decidable (c.Overruns recvLen n) :=
  inferInstanceAs (Decidable (_ ∨ _))

section Input

variable {recvLen sendLen n : UInt32} {sock : TstSocket} {send : TstData}
  {u text chunk : List UInt8} {c : EchoCalls}

theorem EchoCalls.got_le {k m : Nat} (h : c.got k = some m) : m ≤ k := by
  obtain ⟨i, -, rfl⟩ := Option.map_eq_some_iff.mp h
  exact Nat.le_of_lt_succ i.isLt

theorem EchoCalls.took_le (c : EchoCalls) (k : Nat) : (c.took k).getD 0 ≤ k := by
  rw [EchoCalls.took]
  cases c.write k with
  | none => exact Nat.zero_le _
  | some i => exact Nat.le_of_lt_succ i.isLt

theorem printSend_ok (h : send.Sends sendLen) (hroom : text.length < sendLen.toNat) :
    ∃ send', printSend send text = .ok send' ∧ send'.Sends sendLen ∧ send'.Says text := by
  have hfit : ([] : List UInt8).length + text.length < send.s.length := by
    rw [h.size, List.length_nil, Nat.zero_add]
    exact hroom
  obtain ⟨s, hs, hlen, htake⟩ := sprintf_ok (s := send.s) (x := []) text rfl hfit
  refine ⟨{ send with s, reqLen := UInt32.ofNat text.length }, ?_,
    ⟨h.sLen, hlen.trans h.size, h.reqPos⟩, htake, ?_⟩
  · rw [printSend]
    exact congrArg (· >>= _) hs
  · exact UInt32.toNat_ofNat_of_lt' (hroom.trans sendLen.toNat_lt)

/-- Bytes that are read into the empty buffer are a string there. -/
theorem chunk_string (n : UInt32) (h : chunk.length < recvLen.toNat) :
    ∃ s, store (splice (counted recvLen [] n).s 0 chunk) chunk.length 0 = .ok s ∧
      s.length = recvLen.toNat ∧ str s 0 = .ok (cstr chunk) := by
  have hsplice : splice (counted recvLen [] n).s 0 chunk = (counted recvLen chunk n).s := by
    have hfit : ([] : List UInt8).length + chunk.length ≤ recvLen.toNat := by
      rw [List.length_nil, Nat.zero_add]
      exact h.le
    exact splice_counted hfit
  obtain ⟨hstore, -⟩ := store_counted (c := n) h
  have hs : (counted recvLen chunk n).s =
      chunk ++ 0 :: List.replicate (recvLen.toNat - chunk.length - 1) 0 := by
    have hfree : recvLen.toNat - chunk.length = recvLen.toNat - chunk.length - 1 + 1 := by omega
    change chunk ++ List.replicate (recvLen.toNat - chunk.length) 0 = _
    rw [hfree, List.replicate_succ]
    rfl
  have hmem : (0 : UInt8) ∈ (counted recvLen chunk n).s := by
    rw [hs]
    exact List.mem_append_right _ (List.mem_cons_self ..)
  refine ⟨(counted recvLen chunk n).s, hsplice ▸ hstore, length_counted h.le, ?_⟩
  have hstr : str (counted recvLen chunk n).s 0 = .ok (cstr (counted recvLen chunk n).s) :=
    str_at (a := []) (List.nil_append _).symm rfl hmem
  rw [hstr, hs, cstr_append_zero]

theorem echoBack_overruns (h : c.Overruns recvLen n.toNat) :
    echoBack sock (counted recvLen [] n) u c = .error .bounds := by
  have hout : ∀ s : List UInt8, s.length = recvLen.toNat →
      store s (addResult 0 (c.got n.toNat)).toNat 0 = .error .bounds := by
    intro s hs
    have hlt := recvLen.toNat_lt
    rw [store, if_neg]
    rw [hs]
    rcases h with hfail | hfull
    · have hminus : (addResult 0 none).toNat = 2 ^ 32 - 1 := rfl
      rw [hfail, hminus]
      omega
    · rw [hfull, toNat_addResult_some (by rw [UInt32.toNat_zero]; omega), UInt32.toNat_zero]
      omega
  have hlen : (counted recvLen [] n).s.length = recvLen.toNat := length_counted (Nat.zero_le _)
  have hstore := hout (splice (counted recvLen [] n).s 0
    (u.take ((c.got n.toNat).getD 0))) (by rw [length_splice, hlen])
  have herror : ∀ f : List UInt8 → Except Fault Echoed,
      (store (splice (counted recvLen [] n).s 0 (u.take ((c.got n.toNat).getD 0)))
        (addResult 0 (c.got n.toNat)).toNat 0 >>= f) = .error .bounds := by
    intro f
    rw [hstore]
    rfl
  exact herror _

/-- Input that is written back. -/
theorem echoBack_ok (hsend : sock.send = some send) (hsized : send.Sends sendLen)
    (hsizes : recvLen ≤ sendLen) (hle : n.toNat ≤ recvLen.toNat) (hn : n.toNat ≤ u.length)
    (h : ¬ c.Overruns recvLen n.toNat) :
    ∃ chunk u' send' w, u = chunk ++ u' ∧ chunk.length < recvLen.toNat ∧ send'.Sends sendLen ∧
      w = (c.took (cstr chunk).length).getD 0 ∧
      echoBack sock (counted recvLen [] n) u c = .ok {
        sock := { sock with recv := some (counted recvLen [] n), send := some send' }
        unread := u'
        sent := (cstr chunk).take w } := by
  rw [EchoCalls.Overruns, not_or] at h
  obtain ⟨hread, hfull⟩ := h
  obtain ⟨m, hgot⟩ := Option.ne_none_iff_exists'.mp hread
  have hmn : m ≤ n.toNat := EchoCalls.got_le hgot
  have hmlt : m < recvLen.toNat := by
    have hne : m ≠ recvLen.toNat := fun heq => hfull (by rw [hgot, heq])
    omega
  have hchunk : (u.take m).length = m := List.length_take_of_le (hmn.trans hn)
  have hshort : (u.take m).length < recvLen.toNat := hchunk.trans_lt hmlt
  obtain ⟨s, hstore, hs, hstr⟩ := chunk_string n hshort
  rw [hchunk] at hstore
  have htext : (cstr (u.take m)).length < sendLen.toNat := by
    have hsub : (cstr (u.take m)).length ≤ (u.take m).length :=
      (List.takeWhile_prefix _).length_le
    have hsizes' := UInt32.le_iff_toNat_le.mp hsizes
    omega
  obtain ⟨send', hprint, hsized', hsaid⟩ := printSend_ok hsized htext
  have hasked : c.got (counted recvLen [] n).checkedLen.toNat = some m := hgot
  have hbegin : (counted recvLen [] n).comLen.toNat = 0 := rfl
  have hcom : (addResult (counted recvLen [] n).comLen (some m)).toNat = m := by
    have hlt := recvLen.toNat_lt
    rw [toNat_addResult_some (by omega), hbegin, Nat.zero_add]
  have hreset : { counted recvLen [] n with s }.resetData = counted recvLen [] n := resetData_eq hs
  have hwindow : ∀ w ≤ (cstr (u.take m)).length,
      window send'.s 0 w = (cstr (u.take m)).take w := by
    intro w hw
    rw [← hsaid.taken, List.take_take, Nat.min_eq_left hw]
    rfl
  have hw := c.took_le (cstr (u.take m)).length
  refine ⟨u.take m, u.drop m, { send' with
    comLen := addResult 0 (c.took (cstr (u.take m)).length) }, _,
    (List.take_append_drop ..).symm, hshort, ⟨hsized'.sLen, hsized'.size, hsized'.reqPos⟩, rfl, ?_⟩
  simp only [echoBack, hasked, hbegin, Option.getD_some, hcom, hstore, ok_bind, hstr, hsend, deref,
    hprint, hreset, hwindow _ hw, hchunk]
  rfl

end Input

-- ════════════════════════════════════════════════════════════════════════
-- A text that a work thread sends
-- ════════════════════════════════════════════════════════════════════════

/-- The work thread's `write()` calls do not fail. -/
def Kernel.Writes (k : Kernel) : Prop := ∀ n, k.write n ≠ none

/-- They take all the bytes. -/
def Kernel.WritesAll (k : Kernel) : Prop := ∀ n, (k.write n).map (·.val) = some n

theorem Kernel.WritesAll.writes {k : Kernel} (h : k.WritesAll) : k.Writes := by
  intro n hnone
  have hn := h n
  rw [hnone] at hn
  exact absurd hn (by simp)

section Push

variable {sendLen n : UInt32} {d : TstData} {k : Kernel} {text : List UInt8}

/-- Whatever `write()` does, the text stays where it is. -/
theorem autoSend_sends (h : d.Sends sendLen) (k : Kernel) : (d.autoSend k).data.Sends sendLen := by
  rw [TstData.autoSend]
  split
  · exact h
  · exact ⟨h.sLen, h.size, h.reqPos⟩

theorem autoSend_text (h : d.Says text) (k : Kernel) : (d.autoSend k).data.Says text := by
  rw [TstData.autoSend]
  split
  · exact h
  · exact ⟨h.taken, h.reqLen⟩

/-- The bytes that follow those already sent. -/
theorem autoSend_bytes (hsized : d.Sends sendLen) (hsaid : d.Says text)
    (hle : d.comLen.toNat ≤ text.length) (hk : k.Writes) :
    ∃ w ≤ text.length - d.comLen.toNat,
      (d.autoSend k).bytes = (text.drop d.comLen.toNat).take w ∧
      (d.autoSend k).data.comLen.toNat = d.comLen.toNat + w ∧
      (k.WritesAll → w = text.length - d.comLen.toNat) := by
  have hreq := hsaid.reqLen
  rw [TstData.autoSend]
  split
  · next hdone =>
    have hdone' : d.reqLen.toNat ≤ d.comLen.toNat := UInt32.le_iff_toNat_le.mp hdone
    exact ⟨0, Nat.zero_le _, List.take_zero.symm, rfl, fun _ => by omega⟩
  · next hmore =>
    have hask : (d.reqLen - d.comLen).toNat = text.length - d.comLen.toNat := by
      rw [UInt32.toNat_sub_of_le _ _ (UInt32.le_iff_toNat_le.mpr (hreq ▸ hle)), hreq]
    obtain ⟨i, hi⟩ := Option.ne_none_iff_exists'.mp (hk (d.reqLen - d.comLen).toNat)
    have hival : i.val ≤ text.length - d.comLen.toNat := by
      have hlt := i.isLt
      omega
    have hmax := d.reqLen.toNat_lt
    have hwindow : window d.s d.pos i.val = (text.drop d.comLen.toNat).take i.val := by
      have hpos : d.pos = d.comLen.toNat := by
        rw [TstData.pos, hsized.reqPos, UInt32.toNat_zero, Nat.zero_add]
      have hfit : d.comLen.toNat + i.val ≤ text.length := by omega
      have htaken := window_take (m := d.s) hfit
      rw [hsaid.taken] at htaken
      rw [hpos, ← htaken]
      rfl
    refine ⟨i.val, hival, ?_, ?_, fun hall => ?_⟩
    · rw [hi]
      exact hwindow
    · have hfit : d.comLen.toNat + i.val < 2 ^ 32 := by omega
      rw [hi]
      exact toNat_addResult_some hfit
    · have hcount := hall (d.reqLen - d.comLen).toNat
      rw [hi, Option.map_some] at hcount
      rw [Option.some.inj hcount, hask]

end Push

end Tst
