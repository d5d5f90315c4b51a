import Tst.Http.Total
import Tst.Work.Transfer

/-!
# The body of a request

`http()` leaves the body of a request to the worker: it notes where the body begins and how
long it is, and goes on when the worker has received it. What `http()` accepts as a length
decides whether the worker stays within the buffer.

## Main definitions

- `Xfer.Stores` — the bytes that a wake-up stores in the receive buffer
- `BodyInside` — the body and the NUL behind it lie in the buffer, in every run
- `lengthFits` — the lengths for which they do

## Main results

- `body_inside_iff` — `BodyInside` holds of a body that is waited for when its length fits
-/

namespace Tst

open CString

/-- A wake-up stores a byte at index `i` of the receive buffer. -/
def Xfer.Stores (x : Xfer) (w : Wake) (i : Nat) : Prop :=
  x.called = false ∧ w.events.input = true ∧ ∃ d, x.sock.recv = some d ∧ d.reqLen ≠ 0 ∧
    d.pos ≤ i ∧ i < d.pos + (d.autoRecv w.kernel).bytes.length

/-- A body that the buffer waits for, and the NUL that is stored behind it, lie in the
buffer, and so does every byte that a run of wake-ups stores. -/
structure BodyInside (d : TstData) : Prop where
  room : d.reqPos.toNat + d.reqLen.toNat < d.sLen.toNat
  stores : ∀ (sock : TstSocket) (ws : List Wake) (w : Wake) (i : Nat), sock.recv = some d →
    (Xfer.wakes { sock } ws).Stores w i → i < d.sLen.toNat
  nul : ∀ (sock : TstSocket) (ws : List Wake) (d' : TstData), sock.recv = some d →
    (Xfer.wakes { sock } ws).sock.recv = some d' →
      (d'.reqPos + d'.comLen).toNat < d.sLen.toNat

/-- A length that is not negative, or negative where `int` is too small for the free space,
and not the free space itself. -/
def lengthFits (free : Nat) (length : Int) : Prop :=
  (0 ≤ length ∨ 2 ^ 31 ≤ free) ∧ length % 2 ^ 32 ≠ free

-- ════════════════════════════════════════════════════════════════════════
-- What the worker stores
-- ════════════════════════════════════════════════════════════════════════

/-- The receive buffer while it waits for a body: the counter is in its range, or -1 after
a `read()` that failed. -/
structure Waiting (d₀ d : TstData) : Prop where
  reqPos : d.reqPos = d₀.reqPos
  reqLen : d.reqLen = d₀.reqLen
  count : d.comLen ≤ d₀.reqLen ∨ d.comLen = 0xffffffff

section Worker

variable {d₀ d : TstData} {k : Kernel}

theorem Waiting.start (hcom : d.comLen = 0) : Waiting d d := by
  refine ⟨rfl, rfl, .inl ?_⟩
  rw [hcom, UInt32.le_iff_toNat_le]
  exact Nat.zero_le _

/-- One automatic `read()` stores only below `req_pos + req_len`. -/
theorem Waiting.autoRecv (h : Waiting d₀ d) :
    Waiting d₀ (d.autoRecv k).data ∧ ((d.autoRecv k).bytes = [] ∨
      d.pos + (d.autoRecv k).bytes.length ≤ d₀.reqPos.toNat + d₀.reqLen.toNat) := by
  have hreq := h.reqLen
  rw [TstData.autoRecv]
  by_cases hge : d.comLen ≥ d.reqLen
  · rw [if_pos hge]
    exact ⟨h, .inl rfl⟩
  rw [if_neg hge]
  have hlt : d.comLen.toNat < d.reqLen.toNat := UInt32.lt_iff_toNat_lt.mp (UInt32.not_le.mp hge)
  cases k.siocinq with
  | none => exact ⟨h, .inl rfl⟩
  | some n =>
    have hask := d.recvAsk_le (UInt32.le_iff_toNat_le.mpr (Nat.le_of_lt hlt)) n
    cases hread : k.read (d.recvAsk n).toNat with
    | none =>
      have hcount : addResult d.comLen none ≤ d₀.reqLen ∨ addResult d.comLen none = 0xffffffff := by
        by_cases hzero : d.comLen = 0
        · exact .inr (by rw [hzero]; rfl)
        · left
          have hpos : 0 < d.comLen.toNat := by
            rcases Nat.eq_zero_or_pos d.comLen.toNat with h0 | hpos
            · exact absurd (UInt32.toNat_inj.mp h0) hzero
            · exact hpos
          have hlt' := d.comLen.toNat_lt
          rw [← hreq, UInt32.le_iff_toNat_le]
          simp only [addResult, UInt32.toNat_sub, UInt32.reduceToNat]
          omega
      simp only [hread, Option.map_none, Option.getD_none]
      split
      · exact ⟨⟨h.reqPos, hreq, hcount⟩, .inl rfl⟩
      · exact ⟨⟨h.reqPos, hreq, hcount⟩, .inl rfl⟩
    | some got =>
      obtain ⟨bs, hbs⟩ := got
      have hroom : d.comLen.toNat + bs.length ≤ d.reqLen.toNat := by omega
      obtain ⟨-, hcom⟩ := TstData.addResult_le hroom
      rw [hreq] at hcom
      have hpos : d.pos + bs.length ≤ d₀.reqPos.toNat + d₀.reqLen.toNat := by
        rw [TstData.pos, h.reqPos, ← hreq]
        omega
      simp only [hread, Option.map_some, Option.getD_some]
      split
      · exact ⟨⟨h.reqPos, hreq, .inl hcom⟩, .inr hpos⟩
      · exact ⟨⟨h.reqPos, hreq, .inl hcom⟩, .inr hpos⟩

/-- One wake-up, on whatever event, keeps the receive buffer waiting. -/
theorem Waiting.wake {x : Xfer} (h : Waiting d₀ d) (hd : x.sock.recv = some d) (w : Wake) :
    ∃ d', (x.wake w).sock.recv = some d' ∧ Waiting d₀ d' := by
  rw [Xfer.wake]
  split
  · exact ⟨d, hd, h⟩
  · simp only [TstSocket.transfer, hd]
    split
    · split
      · exact ⟨_, rfl, h.autoRecv.1⟩
      · exact ⟨d, rfl, h⟩
    · split
      · split
        · split
          · exact ⟨d, rfl, h⟩
          · exact ⟨d, rfl, h⟩
        · exact ⟨d, rfl, h⟩
      · exact ⟨d, rfl, h⟩

/-- And so does a run of wake-ups. -/
theorem Waiting.wakes {x : Xfer} (h : Waiting d₀ d) (hd : x.sock.recv = some d)
    (ws : List Wake) : ∃ d', (x.wakes ws).sock.recv = some d' ∧ Waiting d₀ d' := by
  induction ws generalizing x d with
  | nil => exact ⟨d, hd, h⟩
  | cons w ws ih =>
    obtain ⟨d', hd', h'⟩ := h.wake hd w
    exact ih h' hd'

/-- The NUL is stored behind what has been received, or before the body when the counter
is -1. -/
theorem Waiting.nul (h : Waiting d₀ d)
    (hroom : d₀.reqPos.toNat + d₀.reqLen.toNat < d₀.sLen.toNat) (hpos : 0 < d₀.reqPos.toNat) :
    (d.reqPos + d.comLen).toNat < d₀.sLen.toNat := by
  have hlt := d₀.sLen.toNat_lt
  rw [UInt32.toNat_add, h.reqPos]
  rcases h.count with hle | hcount
  · have hle' := UInt32.le_iff_toNat_le.mp hle
    omega
  · rw [hcount]
    simp only [UInt32.reduceToNat]
    omega

/-- With room for the body everything stays in the buffer. -/
theorem BodyInside.of_room (hcom : d.comLen = 0)
    (hroom : d.reqPos.toNat + d.reqLen.toNat < d.sLen.toNat) (hpos : 0 < d.reqPos.toNat) :
    BodyInside d where
  room := hroom
  stores sock ws w i hsock := by
    rintro ⟨-, -, d', hd', -, hle, hi⟩
    obtain ⟨d'', hd'', hwaiting⟩ :=
      (Waiting.start hcom).wakes (x := { sock }) (d := d) hsock ws
    obtain rfl : d' = d'' := by rw [hd'] at hd''; exact Option.some.inj hd''
    rcases hwaiting.autoRecv (k := w.kernel) with ⟨-, hnone | hbound⟩
    · rw [hnone] at hi
      simp only [List.length_nil] at hi
      omega
    · omega
  nul sock ws d' hsock hd' := by
    obtain ⟨d'', hd'', hwaiting⟩ :=
      (Waiting.start hcom).wakes (x := { sock }) (d := d) hsock ws
    obtain rfl : d' = d'' := by rw [hd'] at hd''; exact Option.some.inj hd''
    exact hwaiting.nul hroom hpos

end Worker

-- ════════════════════════════════════════════════════════════════════════
-- What `http()` accepts
-- ════════════════════════════════════════════════════════════════════════

section Accepts

variable {h method : List UInt8} {sLen : UInt32} {fs : List Field} {p : Parse}
  {routes : List (List UInt8)} {r : HttpResult}

theorem atoi_range (s : List UInt8) : -2 ^ 31 ≤ atoi s ∧ atoi s < 2 ^ 31 := by
  have hle := Int.le_bmod (x := strtol s) (m := 2 ^ 32) (by decide)
  have hlt := Int.bmod_lt (x := strtol s) (m := 2 ^ 32) (by decide)
  rw [atoi]
  omega

/-- A complete request is answered or handed on. -/
theorem httpRequest_ne_body {d : TstData} {req : RequestInfo}
    (hr : httpRequest d req routes = .ok r) : r.outcome ≠ .body := by
  have hroute : ∀ outcome, checkRoute d.s req routes = .ok outcome → outcome ≠ .body := by
    intro outcome houtcome
    rw [checkRoute] at houtcome
    cases hmethod : deref req.requestMethod >>= str d.s with
    | error e =>
      rw [← bind_assoc, hmethod] at houtcome
      exact absurd houtcome (by simp)
    | ok method =>
      rw [← bind_assoc, hmethod, ok_bind] at houtcome
      split at houtcome
      · cases huri : deref req.requestUri >>= str d.s with
        | error e =>
          rw [← bind_assoc, huri] at houtcome
          exact absurd houtcome (by simp)
        | ok uri =>
          rw [← bind_assoc, huri, ok_bind] at houtcome
          split at houtcome
          · obtain rfl := Except.ok.inj houtcome
            simp
          · split at houtcome
            · obtain rfl := Except.ok.inj houtcome
              simp
            · obtain rfl := Except.ok.inj houtcome
              simp
      · obtain rfl := Except.ok.inj houtcome
        simp
  rw [httpRequest] at hr
  cases hkey : upgradeKey d.s req with
  | error e =>
    rw [hkey] at hr
    exact absurd hr (by simp)
  | ok key =>
    rw [hkey, ok_bind] at hr
    cases key with
    | none =>
      cases houtcome : checkRoute d.s req routes with
      | error e =>
        rw [houtcome] at hr
        exact absurd hr (by simp)
      | ok outcome =>
        rw [houtcome] at hr
        obtain rfl := Except.ok.inj hr
        exact hroute outcome houtcome
    | some key =>
      cases hversion : deref req.httpVersion >>= str d.s with
      | error e =>
        simp only [← bind_assoc, hversion] at hr
        exact absurd hr (by simp)
      | ok version =>
        simp only [← bind_assoc, hversion, ok_bind] at hr
        obtain rfl := Except.ok.inj hr
        simp

/-- What `http()` makes of a header block: an answer, a complete request, or a body that it
waits for. -/
theorem message_cases (hlen : h.length < sLen.toNat) (hend : headerEnd <:+ h)
    (hr : httpMessage (holding sLen h) routes = .ok r) :
    (∃ code, r.outcome = .respond code) ∨ (declaredLength h = 0 ∧ r.outcome ≠ .body) ∨
      ∃ s, r.outcome = .body ∧ declaredLength h ≠ 0 ∧ -2 ^ 31 ≤ declaredLength h ∧
        declaredLength h < 2 ^ 31 ∧ ¬ tooLarge (holding sLen h) (declaredLength h) ∧
        r.recv = armBody { holding sLen h with s := s } (declaredLength h) := by
  rw [httpMessage, closeMessage_holding hlen, ok_bind, comLen_holding hlen] at hr
  cases hparse : parseRequest (h ++ 0 :: behind sLen h) h.length with
  | error e =>
    rw [hparse] at hr
    exact absurd hr (by simp)
  | ok p =>
    rw [hparse, ok_bind] at hr
    rcases parse_fields hend (fun b hb => List.eq_of_mem_replicate hb) hparse with
      hunsupported | ⟨method, hp⟩
    · rw [if_pos hunsupported] at hr
      obtain rfl := Except.ok.inj hr
      exact .inl ⟨505, rfl⟩
    rw [if_neg (by rw [hp.supported]; exact Bool.false_ne_true), contentLength_lookup hp] at hr
    rw [declaredLength]
    cases hvalue : lookup (blockFields h) textContentLength with
    | none => simp [hvalue, deref, Except.map] at hr
    | some value =>
      obtain ⟨hle, hlt⟩ := atoi_range value
      simp only [hvalue, deref, Except.map, ok_bind] at hr
      simp only [Option.map_some, Option.getD_some]
      by_cases hzero : atoi value = 0
      · rw [if_pos hzero] at hr
        exact .inr (.inl ⟨hzero, httpRequest_ne_body hr⟩)
      · rw [if_neg hzero] at hr
        by_cases hlarge : tooLarge (holding sLen h) (atoi value)
        · rw [if_pos (by exact hlarge)] at hr
          obtain rfl := Except.ok.inj hr
          exact .inl ⟨413, rfl⟩
        · rw [if_neg (by exact hlarge)] at hr
          obtain rfl := Except.ok.inj hr
          exact .inr (.inr ⟨p.s, rfl, hzero, hle, hlt, hlarge, rfl⟩)

/-- What `http()` leaves when it waits for a body. -/
theorem message_body (hlen : h.length < sLen.toNat) (hend : headerEnd <:+ h)
    (hr : httpMessage (holding sLen h) routes = .ok r) (hbody : r.outcome = .body) :
    ∃ s, declaredLength h ≠ 0 ∧ -2 ^ 31 ≤ declaredLength h ∧ declaredLength h < 2 ^ 31 ∧
      ¬ tooLarge (holding sLen h) (declaredLength h) ∧
      r.recv = armBody { holding sLen h with s := s } (declaredLength h) := by
  rcases message_cases hlen hend hr with ⟨code, hcode⟩ | ⟨-, hne⟩ | ⟨s, -, h⟩
  · rw [hcode] at hbody
    exact absurd hbody (by simp)
  · exact absurd hbody hne
  · exact ⟨s, h⟩

/-- The body of a request and what is stored for it lie in the receive buffer exactly when
its length fits. -/
theorem body_inside_iff (hlen : h.length < sLen.toNat) (hend : headerEnd <:+ h)
    (hr : httpMessage (holding sLen h) routes = .ok r) (hbody : r.outcome = .body) :
    BodyInside r.recv ↔ lengthFits (sLen.toNat - h.length) (declaredLength h) := by
  obtain ⟨s, hzero, hle, hlt, hlarge, hrecv⟩ := message_body hlen hend hr hbody
  have hcom := comLen_holding hlen
  have hreqPos : r.recv.reqPos.toNat = h.length := by rw [hrecv]; exact hcom
  have hreqLen : (r.recv.reqLen.toNat : Int) = declaredLength h % 2 ^ 32 := by
    rw [hrecv]
    simp only [armBody, UInt32.ofInt, UInt32.toNat_ofNat']
    omega
  have hroom : r.recv.reqPos.toNat + r.recv.reqLen.toNat < r.recv.sLen.toNat ↔
      lengthFits (sLen.toNat - h.length) (declaredLength h) := by
    have hsLen : r.recv.sLen = sLen := by rw [hrecv]; rfl
    have hsub : ((holding sLen h).sLen - (holding sLen h).comLen).toNat =
        sLen.toNat - h.length := by
      change (sLen - (holding sLen h).comLen).toNat = _
      rw [UInt32.toNat_sub_of_le _ _ (UInt32.le_iff_toNat_le.mpr (by omega)), hcom]
    have hmax := sLen.toNat_lt
    rw [tooLarge, hsub, Int.bmod_eq_emod] at hlarge
    rw [hreqPos, hsLen, lengthFits]
    split at hlarge
    · omega
    · omega
  refine ⟨fun hinside => hroom.mp hinside.room, fun hfits => ?_⟩
  have hpos : 0 < r.recv.reqPos.toNat := by
    have h4 := hend.length_le
    rw [hreqPos]
    exact Nat.lt_of_lt_of_le (by decide) h4
  exact .of_room (by rw [hrecv]; rfl) (hroom.mpr hfits) hpos

/-- A body of five bytes, and the NUL in the last byte of the buffer. -/
theorem body_inside_five : ∃ r, httpMessage (holding 43
    ([71, 69, 84, 32, 47, 32, 72, 84, 84, 80, 47, 49, 46, 49, 13, 10] ++
      textContentLength ++ [58, 32, 53, 13, 10, 13, 10])) [] = .ok r ∧ BodyInside r.recv := by
  refine ⟨_, rfl, (@body_inside_iff ([71, 69, 84, 32, 47, 32, 72, 84, 84, 80, 47, 49, 46, 49, 13,
    10] ++ textContentLength ++ [58, 32, 53, 13, 10, 13, 10]) 43 [] _ ?_ ?_ rfl rfl).mpr ?_⟩
  · decide
  · decide
  · exact ⟨.inl (by decide), by decide⟩

/-- A body that fills the buffer: the NUL is stored behind it. -/
theorem body_not_inside : ∃ r, httpMessage (holding 42
    ([71, 69, 84, 32, 47, 32, 72, 84, 84, 80, 47, 49, 46, 49, 13, 10] ++
      textContentLength ++ [58, 32, 53, 13, 10, 13, 10])) [] = .ok r ∧ r.outcome = .body ∧
    ¬ r.recv.reqPos.toNat + r.recv.reqLen.toNat < r.recv.sLen.toNat := by
  refine ⟨_, rfl, rfl, by decide⟩

end Accepts

end Tst
