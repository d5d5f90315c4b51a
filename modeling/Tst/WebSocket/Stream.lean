import Tst.Lib.Execution
import Tst.WebSocket.Payload

/-!
# Streams of frames

A peer sends frames one after the other; their bytes arrive in any pieces, and each wake-up
finds some of them unread. The state of the reception is carried by the counters of the
buffer and by `step`, but the header of a frame is read without a look at what `read()`
returns.

## Main definitions

- `Link` — a connection and the bytes that are still on their way to it
- `headerReady` — the unread bytes hold a whole header and the payload has begun

## Main results

- `stream_received` — the frames are handed over one by one when every header is there as
  its frame is begun
- `stream_not_received` — they are not in general
-/

namespace Tst

open Bytes ByteOrder Execution

/-- A connection, the bytes that have not arrived, and the calls of the user function. -/
structure Link where
  conn : WsRecv
  future : List UInt8
  delivered : List Delivery := []
  closed : Bool := false

/-- Bytes arrive, or the connection is woken. -/
inductive LinkAction
  | arrive (n : Nat)
  | wake (e : Events) (junk : Nat → UInt8)

/-- One action. A wake-up for input finds at least one unread byte. -/
def Link.step (l : Link) : LinkAction → Option Link
  | .arrive n =>
    some { l with
      conn := { l.conn with unread := l.conn.unread ++ l.future.take n }
      future := l.future.drop n }
  | .wake e junk =>
    if e.input = true ∧ l.conn.unread ≠ [] ∧ l.closed = false then
      let r := l.conn.wake junk (some alwaysSuspend) e
      some { l with
        conn := r.conn
        delivered := l.delivered ++ r.delivered
        closed := r.next = .disconnect }
    else none

/-- The bytes of the extended length, by the second byte of a header. -/
def extLen (b₁ : UInt8) : Nat :=
  if b₁ &&& 0x7F < 126 then 0 else if b₁ &&& 0x7F = 126 then 2 else 8

/-- The bytes of a header, by its second byte. -/
def headerLen (b₁ : UInt8) : Nat := 2 + extLen b₁ + if b₁ &&& 0x80 ≠ 0 then 4 else 0

/-- The length that a header states, whose second byte is `b₁` and which goes on with `ext`. -/
def statedLen (b₁ : UInt8) (ext : List UInt8) : Nat :=
  if extLen b₁ = 0 then (b₁ &&& 0x7F).toNat else beNat (ext.take (extLen b₁))

/-- The bytes hold a whole header, and the first byte of the payload if there is one. -/
def headerReady : List UInt8 → Bool
  | b₀ :: b₁ :: ext =>
    let n := (b₀ :: b₁ :: ext).length
    headerLen b₁ < n || (headerLen b₁ = n && statedLen b₁ ext = 0)
  | _ => false

/-- A frame is begun only when its header is there and its payload has begun to arrive. -/
def beginOk (l : Link) : LinkAction → Prop
  | .arrive _ => True
  | .wake _ _ => l.conn.info.step = 0 → headerReady l.conn.unread = true

instance (l : Link) : (a : LinkAction) → Decidable (beginOk l a)
  | .arrive _ => instDecidableTrue
  | .wake _ _ => inferInstanceAs (Decidable (_ → headerReady l.conn.unread = true))

/-- What the user function sees of a frame. -/
def Delivery.seen (d : Delivery) : UInt8 × Nat × List UInt8 := (d.info.opcode, d.info.dataLen, d.data)

/-- What it should see. -/
def Frame.sent (f : Frame) : UInt8 × Nat × List UInt8 :=
  (f.first &&& 0x0F, f.payload.length, f.payload)

/-- The bytes of frames sent one after the other. -/
def stream (fs : List Frame) : List UInt8 := fs.flatMap Frame.bytes

-- ════════════════════════════════════════════════════════════════════════
-- Headers that have arrived
-- ════════════════════════════════════════════════════════════════════════

namespace Frame

variable {f : Frame}

theorem second_code (f : Frame) : f.second &&& 0x7F = f.form.code f.payload.length :=
  (second_bits _ (LenForm.code_lt f.fits)).1

theorem extLen_second (f : Frame) : extLen f.second = (f.form.ext f.payload.length).length := by
  have hfits := f.fits
  rw [extLen, second_code]
  cases hform : f.form with
  | short =>
    rw [hform] at hfits
    have hn : f.payload.length < 126 := hfits
    have hlt : UInt8.ofNat f.payload.length < 126 := by
      rw [UInt8.lt_iff_toNat_lt, UInt8.toNat_ofNat', Nat.mod_eq_of_lt (by omega)]
      exact hn
    rw [LenForm.code, if_pos hlt]
    rfl
  | medium => rfl
  | long => rfl

theorem headerLen_second (f : Frame) : headerLen f.second = f.header.length := by
  have hbit := (second_bits f.key.isSome (LenForm.code_lt f.fits)).2
  have hkeyLen : (f.key.getD []).length = if f.key.isSome then 4 else 0 := by
    cases hkey : f.key with
    | none => rfl
    | some k => exact f.keyLen k hkey
  rw [headerLen, extLen_second, header, List.length_append, List.length_append, hkeyLen]
  congr 1
  exact if_congr hbit rfl rfl

theorem statedLen_second (f : Frame) (rest : List UInt8) :
    statedLen f.second (f.form.ext f.payload.length ++ rest) = f.payload.length := by
  have hfits := f.fits
  rw [statedLen, extLen_second, second_code, List.take_left]
  cases hform : f.form with
  | short =>
    rw [hform] at hfits
    have hn : f.payload.length < 126 := hfits
    rw [if_pos (by rfl), LenForm.code, UInt8.toNat_ofNat', Nat.mod_eq_of_lt (by omega)]
  | medium =>
    rw [hform] at hfits
    rw [if_neg (by simp [LenForm.ext]), LenForm.ext, beNat_beBytes hfits]
  | long =>
    rw [hform] at hfits
    have hsmall : f.payload.length < 256 ^ 8 := Nat.lt_of_le_of_lt hfits (by decide)
    rw [if_neg (by simp [LenForm.ext]), LenForm.ext, beNat_beBytes hsmall]

/-- The bytes that are there hold the header of the frame that comes first. -/
theorem arrived {u future tail : List UInt8} (hready : headerReady u = true)
    (hstream : u ++ future = f.bytes ++ tail) :
    ∃ u', u = f.header ++ u' ∧ (f.payload = [] ∨ u' ≠ []) ∧ u' ++ future = f.body ++ tail := by
  match u with
  | [] => exact absurd hready Bool.false_ne_true
  | [_] => exact absurd hready Bool.false_ne_true
  | b₀ :: b₁ :: ext =>
    have hb₁ : b₁ = f.second := (List.cons.inj (List.cons.inj hstream).2).1
    subst hb₁
    rw [headerReady, headerLen_second] at hready
    simp only [Bool.or_eq_true, Bool.and_eq_true, decide_eq_true_eq] at hready
    rw [Frame.bytes, List.append_assoc] at hstream
    obtain ⟨u', hu', hrest⟩ := WsRecv.exists_rest hstream.symm (by omega)
    refine ⟨u', hu', ?_, hrest.symm⟩
    rcases hready with hmore | ⟨-, hzero⟩
    · right
      rintro rfl
      rw [hu', List.append_nil] at hmore
      exact Nat.lt_irrefl _ hmore
    · left
      have hext : ext = f.form.ext f.payload.length ++ (f.key.getD [] ++ u') := by
        have hcons := congrArg (List.drop 2) hu'
        simpa [Frame.header] using hcons
      rw [hext, statedLen_second] at hzero
      exact List.length_eq_zero_iff.mp hzero

end Frame

-- ════════════════════════════════════════════════════════════════════════
-- Runs
-- ════════════════════════════════════════════════════════════════════════

/-- The connection is to receive `todo`. -/
inductive Link.Expects (l : Link) : List Frame → Prop
  | ready {todo : List Frame} (h : l.conn.Ready)
      (hstream : l.conn.unread ++ l.future = stream todo) : Expects l todo
  | receiving {f : Frame} {todo : List Frame} {more : List UInt8} (h : l.conn.Receiving f more)
      (hstream : l.conn.unread ++ l.future = more ++ stream todo) : Expects l (f :: todo)

/-- Some of the frames have been handed over, and the others are to come. -/
def Link.Follows (fs : List Frame) (l : Link) : Prop :=
  l.closed = false ∧ ∃ done todo, fs = done ++ todo ∧
    l.delivered.map Delivery.seen = done.map Frame.sent ∧ l.Expects todo

/-- What a wake-up for input finds: the header of the next frame with the first byte of its payload,
or more of the payload under way. -/
theorem Link.Expects.wake_cases {l : Link} {todo : List Frame} {e : Events} {junk : Nat → UInt8}
    (h : l.Expects todo) (hok : beginOk l (.wake e junk)) (hu : l.conn.unread ≠ []) :
    ∃ f rest, todo = f :: rest ∧
      ((l.conn.Ready ∧ ∃ u, l.conn.unread = f.header ++ u ∧ (f.payload = [] ∨ u ≠ []) ∧
          u ++ l.future = f.body ++ stream rest) ∨
        ∃ more, l.conn.Receiving f more ∧ l.conn.unread ++ l.future = more ++ stream rest) := by
  cases h with
  | ready hready hstream =>
    cases todo with
    | nil =>
      have hnil : l.conn.unread = [] := (List.append_eq_nil_iff.mp hstream).1
      exact absurd hnil hu
    | cons f rest =>
      rw [stream, List.flatMap_cons] at hstream
      obtain ⟨u, hunread, hfirst, hrest⟩ := Frame.arrived (hok hready.step) hstream
      exact ⟨f, rest, rfl, .inl ⟨hready, u, hunread, hfirst, hrest⟩⟩
  | receiving hrecv hstream => exact ⟨_, _, rfl, .inr ⟨_, hrecv, hstream⟩⟩

theorem Frame.Received.seen {f : Frame} {d : Delivery} (h : f.Received d) : d.seen = f.sent := by
  rw [Delivery.seen, Frame.sent, h.opcode, h.dataLen, h.data]

/-- What a wake-up makes of the first frame to come. -/
theorem Link.Follows.wake {fs done todo : List Frame} {f : Frame} {l : Link} {r : WsResult}
    (hfs : fs = done ++ f :: todo) (hdone : l.delivered.map Delivery.seen = done.map Frame.sent)
    (hadv : Advances f l.future (stream todo) r) :
    Link.Follows fs { l with
      conn := r.conn, delivered := l.delivered ++ r.delivered,
      closed := decide (r.next = .disconnect) } := by
  cases hadv with
  | suspended hnext hnone more hrecv hstream =>
    refine ⟨by rw [hnext]; rfl, done, f :: todo, hfs, ?_, .receiving hrecv hstream⟩
    rw [hnone, List.append_nil]
    exact hdone
  | handed rest h hstream =>
    obtain ⟨d, hd, hreceived⟩ := h.delivered
    refine ⟨by rw [h.next]; rfl, done ++ [f], todo, by rw [hfs]; simp, ?_, .ready h.ready ?_⟩
    · rw [hd, List.map_append, List.map_append, hdone, List.map_singleton, List.map_singleton,
        hreceived.seen]
    · rw [h.unread]
      exact hstream

/-- One action. -/
theorem step_follows {fs : List Frame} {l l' : Link} {a : LinkAction} (hok : beginOk l a)
    (h : l.Follows fs) (hstep : l.step a = some l') : l'.Follows fs := by
  obtain ⟨hopen, done, todo, hfs, hdone, hexp⟩ := h
  cases a with
  | arrive n =>
    obtain rfl := Option.some.inj hstep
    have hmove : ∀ u : List UInt8, u ++ l.future.take n ++ l.future.drop n = u ++ l.future := by
      intro u
      rw [List.append_assoc, List.take_append_drop]
    refine ⟨hopen, done, todo, hfs, hdone, ?_⟩
    cases hexp with
    | ready h hstream => exact .ready ⟨h.step, h.idle, h.wf, h.room⟩ ((hmove _).trans hstream)
    | receiving h hstream =>
      refine .receiving ⟨?_, h.pending, h.total, h.body⟩ ((hmove _).trans hstream)
      exact ⟨h.opened.opcode, h.opened.isText, h.opened.dataLen, h.opened.isMasked, h.opened.mask,
        h.opened.data, h.opened.step, h.opened.wf, h.opened.room, h.opened.fits⟩
  | wake e junk =>
    rw [Link.step] at hstep
    split at hstep
    · next hen =>
      obtain ⟨hin, hu, -⟩ := hen
      obtain rfl := Option.some.inj hstep
      obtain ⟨f, rest, rfl, ⟨hready, u, hunread, hfirst, hrest⟩ | ⟨more, hrecv, hstream⟩⟩ :=
        hexp.wake_cases hok hu
      · exact .wake hfs hdone (hready.advances hin hunread hfirst hrest)
      · exact .wake hfs hdone (hrecv.advances hin hu hstream)
    · exact absurd hstep (by simp)

/-- In every run in which no frame is begun before its header and the first byte of its
payload are there, the frames handed to the user function are the first ones of the stream,
and when all has arrived and nothing is unread they are all of them. -/
theorem stream_received (fs : List Frame) (conn : WsRecv) (future : List UInt8)
    (as : List LinkAction) (l : Link) (hready : conn.Ready)
    (hstream : conn.unread ++ future = stream fs)
    (h : Exec Link.step beginOk { conn, future } as l) :
    l.delivered.map Delivery.seen <+: fs.map Frame.sent ∧
      (l.future = [] → l.conn.unread = [] →
        l.delivered.map Delivery.seen = fs.map Frame.sent) := by
  have hinit : Link.Follows fs { conn, future } :=
    ⟨rfl, [], fs, rfl, rfl, .ready hready hstream⟩
  obtain ⟨-, done, todo, rfl, hdone, hexp⟩ :=
    h.invariant (fun _ _ _ hok hl hstep => step_follows hok hl hstep) hinit
  refine ⟨?_, fun hfuture hunread => ?_⟩
  · rw [hdone, List.map_append]
    exact List.prefix_append ..
  · have hempty : l.conn.unread ++ l.future = [] := by rw [hfuture, hunread, List.append_nil]
    cases hexp with
    | ready hready' hstream' =>
      cases todo with
      | nil => rw [hdone, List.append_nil]
      | cons f todo =>
        rw [hempty] at hstream'
        exact absurd hstream' (List.cons_ne_nil _ _).symm
    | receiving hrecv hstream' =>
      -- a payload under way has bytes to come
      rw [hempty] at hstream'
      exact absurd (List.append_eq_nil_iff.mp hstream'.symm).1 hrecv.more_ne_nil

/-- "A". -/
def Frame.one : Frame where
  first := 0x81
  form := .short
  key := none
  payload := [65]
  fits := show 1 < 126 by decide
  keyLen := keyLen_none

/-- "Hey", masked. -/
def Frame.masked : Frame where
  first := 0x82
  form := .short
  key := some [1, 2, 3, 4]
  payload := [72, 101, 121]
  fits := show 3 < 126 by decide
  keyLen := by simp

/-- Two frames in three pieces; the payload of the second one is cut. -/
def piecesRun : List LinkAction :=
  [.arrive 3, .wake .base (fun _ => 0), .arrive 8, .wake .base (fun _ => 0), .arrive 1,
    .wake .base (fun _ => 0)]

theorem stream_received_pieces :
    ∃ l, Exec Link.step beginOk
        { conn := .upgraded [], future := stream [Frame.one, Frame.masked] } piecesRun l ∧
      l.delivered.map Delivery.seen = [Frame.one, Frame.masked].map Frame.sent := by
  have hrun : (check Link.step beginOk
      { conn := .upgraded [], future := stream [Frame.one, Frame.masked] } piecesRun).any
      (fun l => l.future = [] ∧ l.conn.unread = []) = true := by decide
  obtain ⟨l, hexec, hend⟩ := Exec.exists_of_check hrun
  obtain ⟨hfuture, hunread⟩ := of_decide_eq_true hend
  exact ⟨l, hexec, (stream_received _ _ _ _ _ (WsRecv.upgraded_ready []) rfl hexec).2 hfuture hunread⟩

/-- The header of a frame arrives before its payload: the user function is called with a
payload that has not been received, and once more when it has. -/
theorem stream_not_received :
    ¬ ∀ (fs : List Frame) (conn : WsRecv) (future : List UInt8) (as : List LinkAction) (l : Link),
      conn.Ready → conn.unread ++ future = stream fs →
      run Link.step { conn, future } as = some l → l.future = [] → l.conn.unread = [] →
      l.delivered.map Delivery.seen = fs.map Frame.sent := by
  intro h
  have hrun : ((run Link.step { conn := .upgraded [], future := stream [Frame.one] }
      [.arrive 2, .wake .base (fun _ => 0), .arrive 1, .wake .base (fun _ => 0)]).any
      fun l => l.future = [] ∧ l.conn.unread = [] ∧
        l.delivered.map Delivery.seen = [(1, 1, [0]), (1, 0, [])]) = true := by decide
  obtain ⟨l, hl, hend⟩ := (Option.any_eq_true ..).mp hrun
  obtain ⟨hfuture, hunread, hseen⟩ := of_decide_eq_true hend
  have hall := h _ _ _ _ l (WsRecv.upgraded_ready []) rfl hl hfuture hunread
  rw [hseen] at hall
  exact absurd hall (by decide)

end Tst
