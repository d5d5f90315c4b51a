import Tst.Ami.Sync
import Tst.Http.Response

/-!
# The text of an action

`ami_sync` and `ami_async` print the action into the send buffer with `vsnprintf`, and append
the line with its number by a `sprintf` at the length that `vsnprintf` has returned.

## Main definitions

- `formatAction` — the two prints, and the bytes for `write()`
- `sendAction` — a call up to its `write()`

## Main results

- `sendAction_iff` — when the action is written as it was given
-/

namespace Tst.Ami

open Bytes CString Decimal

/-- `"ActionID: %d\n\n"`, for a `uint32_t`. -/
def actionLine (id : UInt32) : List UInt8 :=
  textActionID ++ 58 :: 32 :: (printInt id.toInt32.toInt ++ [10, 10])

/-- The action is formatted: the send buffer, and what is handed to `write()`. -/
def formatAction (d : TstData) (text : List UInt8) (id : UInt32) :
    Except Fault (TstData × List UInt8) := do
  let s ← snprintf d.s 0 (d.sLen - 1).toNat text
  let s ← sprintf s (wouldBe text).toNat (actionLine id)
  let reqLen := UInt32.ofNat (← find s (· = 0) 0)
  return ({ d with s, reqLen }, s.take reqLen.toNat)

/-- What a call uses of `ami_socket`. -/
structure AmiSocket where
  isClient : Bool := true
  send : TstData

/-- A call after its `write()`: the result that it has set, `actionid`, the send buffer, and the
bytes that it has handed to `write()`. -/
structure Sent where
  result : Int := 0
  actionid : UInt32
  send : Option TstData := none
  written : Option (List UInt8) := none

/-- `ami_sync` and `ami_async` up to the `write()`, for a text that has been formatted. Where
`ami_sync` returns a result, `ami_async` returns. -/
def sendAction (kind : Kind) (socket : Option AmiSocket) (text : List UInt8)
    (actionid : UInt32) : Except Fault Sent :=
  match socket with
  | none => .ok { result := -99, actionid }
  | some socket =>
    if ¬socket.isClient then .ok { result := -99, actionid }
    else if kind.fmtIsSend then .ok { result := -98, actionid }
    else do
      let (send, bytes) ← formatAction socket.send text (actionid + 1)
      return { actionid := actionid + 1, send := some send, written := some bytes }

/-- The action and its number have been written, or nothing has been and an error is reported. -/
def Sent.Right (sent : Sent) (text : List UInt8) : Prop :=
  sent.written = some (text ++ actionLine sent.actionid) ∨
    sent.written = none ∧ sent.result ≠ 0

section Format

variable {d : TstData} {s text : List UInt8} {id : UInt32} {n : Nat}

/-- Before the first NUL there is none. -/
theorem not_mem_take_find (h : find s (· = 0) 0 = .ok n) : n < s.length ∧ 0 ∉ s.take n := by
  rw [find, List.drop_zero] at h
  split at h
  · next k hk =>
    obtain rfl : k = n := by
      rw [Nat.zero_add] at h
      exact Except.ok.inj h
    obtain ⟨hlt, -, hbefore⟩ := List.findIdx?_eq_some_iff_getElem.mp hk
    refine ⟨hlt, fun hmem => ?_⟩
    obtain ⟨i, hi, hzero⟩ := List.getElem_of_mem hmem
    rw [List.length_take] at hi
    rw [List.getElem_take] at hzero
    exact hbefore i (Nat.lt_of_lt_of_le hi (Nat.min_le_left ..)) (decide_eq_true hzero)
  · exact absurd h (by simp)

theorem actionLine_pos (id : UInt32) : 0 < (actionLine id).length := Nat.succ_pos _

theorem actionLine_noNul (id : UInt32) : 0 ∉ actionLine id := by
  have hname : 0 ∉ textActionID := by decide
  simp [actionLine, printInt_noNul, hname]

/-- What `vsnprintf` returns is the length of a text that ends inside the buffer. -/
theorem wouldBe_fits (h : (wouldBe text).toNat + n < d.sLen.toNat) :
    text.length < 2 ^ 31 ∧ (wouldBe text).toNat = text.length := by
  have hmax := d.sLen.toNat_lt
  rw [wouldBe] at h ⊢
  split at h
  · next hlt =>
    rw [if_pos hlt, UInt32.toNat_ofNat', Nat.mod_eq_of_lt (by omega)]
    exact ⟨hlt, rfl⟩
  · have hone : (0 - 1 : UInt32).toNat = 2 ^ 32 - 1 := rfl
    omega

/-- An action that fits is handed to `write()` with its number. -/
theorem formatAction_ok (hlen : d.s.length = d.sLen.toNat) (htext : 0 ∉ text)
    (hint : text.length < 2 ^ 31) (hfits : text.length + (actionLine id).length < d.sLen.toNat) :
    ∃ d', formatAction d text id = .ok (d', text ++ actionLine id) := by
  have hmax := d.sLen.toNat_lt
  have hline := actionLine_pos id
  have hroom : (d.sLen - 1).toNat = d.sLen.toNat - 1 := by
    have hone : (1 : UInt32) ≤ d.sLen := UInt32.le_iff_toNat_le.mpr (show 1 ≤ d.sLen.toNat by omega)
    rw [UInt32.toNat_sub_of_le _ _ hone]
    rfl
  have hwould : (wouldBe text).toNat = text.length := by
    rw [wouldBe, if_pos hint, UInt32.toNat_ofNat', Nat.mod_eq_of_lt (by omega)]
  have hall : text.take (d.sLen.toNat - 1 - 1) = text := List.take_of_length_le (by omega)
  obtain ⟨r, hfirst⟩ := sprintf_eq (s := d.s) (x := []) text rfl (by
    rw [List.length_nil, Nat.zero_add]
    omega)
  have hprint : snprintf d.s 0 (d.sLen - 1).toNat text = .ok (text ++ 0 :: r) := by
    rw [snprintf, hroom, if_neg (by omega), hall]
    exact hfirst
  have hlen' : (text ++ 0 :: r).length = d.sLen.toNat := (length_snprintf hprint).trans hlen
  obtain ⟨r', hsecond⟩ := sprintf_eq (s := text ++ 0 :: r) (x := text) (actionLine id)
    (List.take_left ..) (by omega)
  have hnul : 0 ∉ text ++ actionLine id := by
    rw [List.mem_append, not_or]
    exact ⟨htext, actionLine_noNul id⟩
  have hfind : find (text ++ actionLine id ++ 0 :: r') (· = 0) 0 =
      .ok (text ++ actionLine id).length := by
    have hend := find_nul (a := []) (s := text ++ actionLine id ++ 0 :: r') rfl rfl hnul
    rwa [List.length_nil, Nat.zero_add] at hend
  have hcount : (UInt32.ofNat (text ++ actionLine id).length).toNat =
      (text ++ actionLine id).length := by
    rw [UInt32.toNat_ofNat', Nat.mod_eq_of_lt (by rw [List.length_append]; omega)]
  refine ⟨{ d with s := text ++ actionLine id ++ 0 :: r',
                   reqLen := UInt32.ofNat (text ++ actionLine id).length }, ?_⟩
  rw [formatAction, hprint, ok_bind, hwould, hsecond, ok_bind, hfind, ok_bind]
  dsimp only
  rw [hcount, List.take_left]
  rfl

/-- Whatever is handed to `write()` has been printed inside the buffer, and ends at its first
NUL. -/
theorem formatAction_of_ok (hlen : d.s.length = d.sLen.toNat) {d' : TstData} {bytes : List UInt8}
    (h : formatAction d text id = .ok (d', bytes)) :
    text.length + (actionLine id).length < d.sLen.toNat ∧ text.length < 2 ^ 31 ∧ 0 ∉ bytes := by
  obtain ⟨s₁, hfirst, h⟩ := bind_eq_ok.mp h
  obtain ⟨s₂, hsecond, h⟩ := bind_eq_ok.mp h
  obtain ⟨n, hfind, h⟩ := bind_eq_ok.mp h
  have hlen₁ : s₁.length = d.sLen.toNat := (length_snprintf hfirst).trans hlen
  have hlt := sprintf_lt hsecond
  rw [hlen₁] at hlt
  obtain ⟨hint, hwould⟩ := wouldBe_fits hlt
  obtain ⟨hn, hnul⟩ := not_mem_take_find hfind
  rw [length_sprintf hsecond, hlen₁] at hn
  have hmax := d.sLen.toNat_lt
  have hcount : (UInt32.ofNat n).toNat = n := by
    rw [UInt32.toNat_ofNat', Nat.mod_eq_of_lt (by omega)]
  have hbytes : s₂.take n = bytes := by
    rw [← hcount]
    exact (Prod.mk.inj (Except.ok.inj h)).2
  exact ⟨by omega, hint, hbytes ▸ hnul⟩

/-- A `uint32_t` as an `int`. -/
theorem toInt_toInt32 (id : UInt32) :
    id.toInt32.toInt = if id.toNat < 2 ^ 31 then (id.toNat : Int) else id.toNat - 2 ^ 32 := by
  have hcond : id.toInt32.toInt =
      if 2 * id.toNat < 2 ^ 32 then (id.toNat : Int) else id.toNat - 2 ^ 32 :=
    BitVec.toInt_eq_toNat_cond id.toBitVec
  rw [hcond]
  split
  · next h => rw [if_pos (by omega)]
  · next h => rw [if_neg (by omega)]

/-- The number is printed as the counter up to the largest `int`. -/
theorem printInt_eq_numeral_iff : printInt id.toInt32.toInt = numeral id.toNat ↔
    id.toNat < 2 ^ 31 := by
  have hlt := id.toNat_lt
  rw [toInt_toInt32]
  constructor
  · intro heq
    by_contra hbig
    rw [if_neg hbig, printInt, if_pos (by omega)] at heq
    have hdash : (45 : UInt8) ∈ numeral id.toNat := heq ▸ List.mem_cons_self ..
    exact absurd (isDigit_numeral _ 45 hdash) (by decide)
  · intro hsmall
    rw [if_pos hsmall, printInt, if_neg (by omega), Int.natAbs_natCast]

end Format

/-- When `ami_sync` or `ami_async`, called with a text for a connection, prints only inside the
buffer and writes the action and its number. The number is that of `actionid` as an `int`; it is
the decimal of the counter below 2^31. -/
theorem sendAction_iff (kind : Kind) (d : TstData) (hlen : d.s.length = d.sLen.toNat)
    (hfmt : kind.fmtIsSend = false) (text : List UInt8) (actionid : UInt32) :
    ((∃ sent, sendAction kind (some { send := d }) text actionid = .ok sent ∧ sent.Right text) ↔
      text.length + (actionLine (actionid + 1)).length < d.sLen.toNat ∧ text.length < 2 ^ 31 ∧
        0 ∉ text) ∧
    (actionLine (actionid + 1) =
        textActionID ++ 58 :: 32 :: (numeral (actionid + 1).toNat ++ [10, 10]) ↔
      (actionid + 1).toNat < 2 ^ 31) := by
  have hcall : sendAction kind (some { send := d }) text actionid =
      formatAction d text (actionid + 1) >>= fun x => .ok
        { actionid := actionid + 1, send := some x.1, written := some x.2 } := by
    rw [sendAction]
    simp only [not_true_eq_false, if_false, hfmt, Bool.false_eq_true]
    rfl
  rw [hcall]
  refine ⟨⟨?_, ?_⟩, ?_⟩
  · rintro ⟨sent, hok, hright⟩
    obtain ⟨⟨d', bytes⟩, hformat, hsent⟩ := bind_eq_ok.mp hok
    obtain rfl := Except.ok.inj hsent
    obtain ⟨hfits, hint, hnul⟩ := formatAction_of_ok hlen hformat
    obtain hbytes | ⟨hnone, -⟩ := hright
    · obtain rfl : bytes = text ++ actionLine (actionid + 1) := Option.some.inj hbytes
      rw [List.mem_append, not_or] at hnul
      exact ⟨hfits, hint, hnul.1⟩
    · exact absurd hnone (by simp)
  · rintro ⟨hfits, hint, htext⟩
    obtain ⟨d', hformat⟩ := formatAction_ok hlen htext hint hfits
    rw [hformat, ok_bind]
    exact ⟨_, rfl, .inl rfl⟩
  · rw [← printInt_eq_numeral_iff, actionLine, List.append_cancel_left_eq, List.cons.injEq,
      List.cons.injEq, List.append_cancel_right_eq]
    simp

/-- `Action: Ping` -/
def ping : List UInt8 := [65, 99, 116, 105, 111, 110, 58, 32, 80, 105, 110, 103, 10]

theorem sendAction_iff_ping :
    ∃ sent, sendAction { sync := true } (some { send := .alloc 27 }) ping 0 = .ok sent ∧
      sent.Right ping :=
  (sendAction_iff { sync := true } (.alloc 27) (by decide) rfl ping 0).1.mpr (by decide)

/-- With one byte less the NUL behind the number is stored outside the buffer. -/
theorem sendAction_overflow :
    sendAction { sync := true } (some { send := .alloc 26 }) ping 0 = .error .bounds ∧
      ¬∃ sent, sendAction { sync := true } (some { send := .alloc 26 }) ping 0 = .ok sent ∧
        sent.Right ping := by
  have hrun : sendAction { sync := true } (some { send := .alloc 26 }) ping 0 = .error .bounds :=
    rfl
  refine ⟨hrun, ?_⟩
  rintro ⟨sent, hok, -⟩
  rw [hrun] at hok
  exact absurd hok (by simp)

end Tst.Ami
