import Tst.Ami.Framing

/-!
# Progress of the receive loop

A wake-up of the connection reads up to the end of a message, and no more than there is room
for. A full buffer that does not end a message leaves no room, and nothing resets it.

## Main definitions

- `AmiLink.Progress` — a wake-up has consumed bytes or handled a message

## Main results

- `wake_progress_iff` — in every run, a wake-up makes progress unless the buffer is full
- `progress_of_short` — it does as long as messages fit in the buffer
-/

namespace Tst

open Bytes CString Execution Framing

/-- The wake-up has read something, or a message has been handled and the buffer reset.
`ami_event()` never asks for a disconnection. -/
def AmiLink.Progress (l l' : AmiLink) : Prop :=
  l'.conn.unread.length < l.conn.unread.length ∨ l.handled.length < l'.handled.length

section Wake

variable {sLen c : UInt32} {x u : List UInt8} {conn : AmiConn} {e : Events} {n : Nat}

/-- The room in the buffer, but for a NUL, or what has been counted. -/
theorem remain_eq_min (hx : x.length < sLen.toNat) (hmax : sLen.toNat < 2 ^ 31)
    (hc : c.toNat < 2 ^ 31) :
    AmiConn.remain (counted sLen x c) = min (sLen.toNat - x.length - 1 : Nat) c.toNat := by
  rw [AmiConn.remain_eq hx, Int.bmod_eq_of_le (by omega) (by omega),
    Int.bmod_eq_of_le (by omega) (by omega)]
  omega

/-- Reading does not put bytes back. -/
theorem length_feed_snd_le (k : Nat) (acc l : List UInt8) :
    (feed messageComplete k acc l).2.length ≤ l.length := by
  induction k generalizing acc l with
  | zero => exact Nat.le_refl _
  | succ k ih =>
    cases l with
    | nil => exact Nat.le_refl _
    | cons b l =>
      rw [feed]
      split
      · exact Nat.le_refl _
      · exact (ih (acc ++ [b]) l).trans (Nat.le_succ _)

/-- With room and something to read, an open message is read on. -/
theorem length_feed_lt (hopen : Open messageComplete x) (hn : 0 < n) (hu : 0 < u.length) :
    (feed messageComplete n x u).2.length < u.length := by
  obtain ⟨n, rfl⟩ : ∃ k, n = k + 1 := ⟨n - 1, by omega⟩
  obtain ⟨b, u, rfl⟩ := List.exists_cons_of_length_pos hu
  rw [feed, hopen.done_eq, if_neg Bool.false_ne_true]
  exact Nat.lt_succ_of_le (length_feed_snd_le n (x ++ [b]) u)

/-- A wake-up reads on where there is room, and leaves a full buffer as it is. -/
theorem AmiConn.wake_reads (hrecv : conn.recv = counted sLen x c) (hx : x.length < sLen.toNat)
    (hmax : sLen.toNat < 2 ^ 31) (hopen : Open messageComplete x) (he : e.epollin = true)
    (hn : n ≤ conn.unread.length) (hpos : 0 < n) (hint : n < 2 ^ 31) (k : Kernel)
    (handlers : List (List UInt8)) (view : ManageView) :
    if x.length + 1 < sLen.toNat then
      (conn.wake e n k handlers view).conn.unread.length < conn.unread.length
    else
      (conn.wake e n k handlers view).conn.recv = counted sLen x (UInt32.ofNat n) ∧
        (conn.wake e n k handlers view).conn.unread = conn.unread ∧
        (conn.wake e n k handlers view).message = none ∧
        (conn.wake e n k handlers view).outcome = .ok none := by
  have hcount : (UInt32.ofNat n).toNat = n := by
    rw [UInt32.toNat_ofNat']
    omega
  have hremain : (AmiConn.remain (counted sLen x (UInt32.ofNat n))).toNat =
      min (sLen.toNat - x.length - 1) n := by
    rw [remain_eq_min hx hmax (by omega), hcount, Int.toNat_natCast]
  split
  · have hlt := length_feed_lt (n := (AmiConn.remain (counted sLen x (UInt32.ofNat n))).toNat)
      (u := conn.unread) hopen (by rw [hremain]; omega) (by omega)
    cases hfeed : feed messageComplete (AmiConn.remain (counted sLen x (UInt32.ofNat n))).toNat x
      conn.unread with
    | mk y u' =>
      obtain ⟨-, hunread, -⟩ := conn.wake_feed hrecv hx he hn k handlers view hfeed
      rw [hunread]
      rw [hfeed] at hlt
      exact hlt
  · have hfull : min (sLen.toNat - x.length - 1) n = 0 := by omega
    have hfeed : feed messageComplete (AmiConn.remain (counted sLen x (UInt32.ofNat n))).toNat x
        conn.unread = (x, conn.unread) := by
      rw [hremain, hfull]
      rfl
    obtain ⟨-, hunread, hwake⟩ := conn.wake_feed hrecv hx he hn k handlers view hfeed
    rw [hopen.done_eq, if_neg Bool.false_ne_true] at hwake
    exact ⟨hwake.1, hunread, hwake.2⟩

end Wake

section Runs

variable {sLen : UInt32} {stream : List UInt8} {handlers : List (List UInt8)} {l l' : AmiLink}
  {e : Events} {n : Nat} {k : Kernel} {view : ManageView}

/-- In a state of a run, a wake-up makes progress unless the buffer is full. -/
theorem AmiLink.Follows.progress_iff (h : l.Follows sLen stream) (hmax : sLen.toNat < 2 ^ 31)
    (hpos : 0 < n) (hint : n < 2 ^ 31) (hstep : l.step handlers (.wake e n k view) = some l') :
    l.Progress l' ↔ l.conn.recv.comLen.toNat + 1 < sLen.toNat := by
  obtain ⟨x, c, hrecv, hx, hopen, -⟩ := h.bytes
  have hcom : l.conn.recv.comLen.toNat = x.length := by
    rw [hrecv]
    exact comLen_holding hx
  rw [AmiLink.step] at hstep
  split at hstep
  · next hen =>
    obtain ⟨he, hn, -⟩ := hen
    obtain rfl := Option.some.inj hstep
    have hreads := l.conn.wake_reads hrecv hx hmax hopen he hn hpos hint k handlers view
    rw [hcom]
    by_cases hroom : x.length + 1 < sLen.toNat
    · rw [if_pos hroom] at hreads
      exact ⟨fun _ => hroom, fun _ => .inl hreads⟩
    · rw [if_neg hroom] at hreads
      obtain ⟨-, hunread, hmessage, -⟩ := hreads
      refine ⟨fun hprogress => ?_, fun h => absurd h hroom⟩
      obtain hless | hmore := hprogress
      · change (l.conn.wake e n k handlers view).conn.unread.length < _ at hless
        rw [hunread] at hless
        exact absurd hless (Nat.lt_irrefl _)
      · change _ < (l.handled ++ (l.conn.wake e n k handlers view).message.toList).length at hmore
        rw [hmessage, Option.toList_none, List.append_nil] at hmore
        exact absurd hmore (Nat.lt_irrefl _)
  · exact absurd hstep (by simp)

/-- In every run, a wake-up with something to read makes progress if and only if there is
room in the buffer for a byte and a NUL. -/
theorem wake_progress_iff (sd : Nat) (hsLen : 1 < sLen) (hmax : sLen.toNat < 2 ^ 31)
    {as : List AmiAction} (h : run (AmiLink.step handlers) (.start sd sLen stream) as = some l)
    (hpos : 0 < n) (hint : n < 2 ^ 31)
    (hstep : l.step handlers (.wake e n k view) = some l') :
    l.Progress l' ↔ l.conn.recv.comLen.toNat + 1 < sLen.toNat :=
  (AmiLink.Follows.run hsLen h).progress_iff hmax hpos hint hstep

/-- The first bytes of a message, in the buffer of the connection. -/
theorem wake_progress_iff_first :
    let k : Kernel := ⟨none, fun _ => none, fun _ => none⟩
    let view : ManageView := ⟨false, false, {}, 0, 0⟩
    ∃ l l', run (AmiLink.step []) (.start 5 4096 shortStream) [.arrive 6] = some l ∧
      l.step [] (.wake .base 6 k view) = some l' ∧ l.Progress l' := by
  intro k view
  let conn : AmiConn := { sd := 5, recv := .alloc 4096, unread := [] ++ shortStream.take 6 }
  let l : AmiLink := { conn, future := shortStream.drop 6 }
  have hrun : run (AmiLink.step []) (.start 5 4096 shortStream) [.arrive 6] = some l := rfl
  obtain ⟨l', hstep⟩ : ∃ l', l.step [] (.wake .base 6 k view) = some l' := by
    have hen : Events.base.epollin = true ∧ 6 ≤ l.conn.unread.length ∧ l.failed = false :=
      ⟨rfl, by decide, rfl⟩
    rw [AmiLink.step, if_pos hen]
    exact ⟨_, rfl⟩
  exact ⟨l, l', hrun, hstep, (wake_progress_iff 5 (by decide) (by decide) hrun (by decide)
    (by decide) hstep).mpr (by decide)⟩

/-- As long as no message of the stream is longer than the buffer but for a NUL, every wake-up
with something to read makes progress. -/
theorem progress_of_short (sd : Nat) (hsLen : 1 < sLen) (hmax : sLen.toNat < 2 ^ 31)
    (hshort : ∀ (ps : List (List UInt8)) x b y, (∀ p ∈ ps, Piece messageComplete p) → Open messageComplete x →
      stream = ps.flatten ++ (x ++ b :: y) → (x ++ [b]).length < sLen.toNat)
    {as : List AmiAction} (h : run (AmiLink.step handlers) (.start sd sLen stream) as = some l)
    (hpos : 0 < n) (hint : n < 2 ^ 31)
    (hstep : l.step handlers (.wake e n k view) = some l') : l.Progress l' := by
  have hl := AmiLink.Follows.run hsLen h
  apply (hl.progress_iff hmax hpos hint hstep).mpr
  obtain ⟨x, c, hrecv, hx, hopen, hbytes⟩ := hl.bytes
  have hcom : l.conn.recv.comLen.toNat = x.length := by
    rw [hrecv]
    exact comLen_holding hx
  rw [AmiLink.step] at hstep
  split at hstep
  · next hen =>
    obtain ⟨-, hn, -⟩ := hen
    obtain ⟨b, u, hu⟩ := List.exists_cons_of_length_pos (hpos.trans_le hn)
    rw [hu] at hbytes
    have hlen := hshort l.pieces x b (u ++ l.future) hl.pieces hopen hbytes.symm
    rw [List.length_append, List.length_singleton] at hlen
    rw [hcom]
    exact hlen
  · exact absurd hstep (by simp)

/-- Bytes that are no line end never end a message. -/
theorem messageComplete_replicate (k : Nat) : messageComplete (List.replicate k 97) = false := by
  apply Bool.eq_false_iff.mpr
  intro h
  have hsuffix := List.isSuffixOf_iff_suffix.mp h
  have hmem := List.eq_of_mem_replicate (hsuffix.subset (List.mem_cons_self ..))
  exact absurd hmem (by decide)

/-- All bytes arrive, and the connection is woken. -/
theorem run_arrive_wake (k : Kernel) (view : ManageView) {sd : Nat} {u : List UInt8} {conn : AmiConn}
    (hconn : conn = { sd, recv := counted sLen [] 0, unread := u }) (he : e = .base) :
    run (AmiLink.step []) (.start sd sLen u) [.arrive u.length, .wake e u.length k view] =
      some { conn := (conn.wake e u.length k [] view).conn
             future := []
             handled := [] ++ (conn.wake e u.length k [] view).message.toList
             failed := !(conn.wake e u.length k [] view).outcome.isOk } := by
  subst hconn he
  have harrive : (AmiLink.start sd sLen u).step [] (.arrive u.length) =
      some { conn := { sd, recv := counted sLen [] 0, unread := u }, future := [] } := by
    rw [AmiLink.step, AmiLink.start, List.take_length, List.drop_length]
    rfl
  have hen : Events.base.epollin = true ∧ u.length ≤ u.length ∧ false = false :=
    ⟨rfl, Nat.le_refl _, rfl⟩
  rw [run, harrive, Option.bind_some, run, AmiLink.step, if_pos hen, Option.bind_some, run]

/-- A message whose first part fills the buffer is never read to its end. -/
theorem stuck_of_feed {sd : Nat} {u v y : List UInt8} (hsLen : 1 < sLen)
    (hmax : sLen.toNat < 2 ^ 31) (hfeed : feed messageComplete
      (AmiConn.remain (counted sLen [] (UInt32.ofNat u.length))).toNat [] u = (y, v))
    (hfull : y.length + 1 = sLen.toNat) (hopen : messageComplete y = false) :
    ∃ as l, run (AmiLink.step []) (.start sd sLen u) as = some l ∧ l.conn.unread = v ∧
      l.failed = false ∧ ∀ e n k view l', 0 < n → n < 2 ^ 31 →
        l.step [] (.wake e n k view) = some l' → ¬ l.Progress l' := by
  obtain ⟨conn, hconn⟩ : ∃ conn : AmiConn,
      conn = { sd, recv := counted sLen [] 0, unread := u } := ⟨_, rfl⟩
  have hrecv : conn.recv = counted sLen [] 0 := by rw [hconn]
  have hu : conn.unread = u := by rw [hconn]
  let k : Kernel := ⟨none, fun _ => none, fun _ => none⟩
  let view : ManageView := ⟨false, false, {}, 0, 0⟩
  have hx : ([] : List UInt8).length < sLen.toNat := by
    rw [List.length_nil]
    omega
  rw [← hu] at hfeed
  obtain ⟨-, hunread, hwake⟩ := conn.wake_feed (e := .base) hrecv hx rfl (Nat.le_refl _) k [] view
    hfeed
  rw [hopen, if_neg Bool.false_ne_true] at hwake
  obtain ⟨hholds, -, hok⟩ := hwake
  have hrun := run_arrive_wake k view hconn rfl
  rw [hu] at hunread hok hholds
  refine ⟨_, _, hrun, hunread, ?_, ?_⟩
  · change (!(conn.wake .base u.length k [] view).outcome.isOk) = false
    rw [hok]
    rfl
  · intro e n k' view' l' hpos hint hstep hprogress
    have hroom := ((AmiLink.Follows.run hsLen hrun).progress_iff hmax hpos hint hstep).mp hprogress
    have hcom : (conn.wake .base u.length k [] view).conn.recv.comLen.toNat = y.length := by
      have hlt : y.length < sLen.toNat := by omega
      rw [hholds]
      exact comLen_holding hlt
    change (conn.wake .base u.length k [] view).conn.recv.comLen.toNat + 1 < _ at hroom
    rw [hcom] at hroom
    omega

/-- A line of 4096 bytes: the buffer is full, a byte is unread, and no wake-up reads it. -/
theorem full_buffer_stuck : ∃ as l,
    run (AmiLink.step []) (.start 5 4096 (List.replicate 4096 97)) as = some l ∧
      l.conn.unread = [97] ∧ l.failed = false ∧
      ∀ e n k view l', 0 < n → n < 2 ^ 31 → l.step [] (.wake e n k view) = some l' →
        ¬ l.Progress l' := by
  have hx : ([] : List UInt8).length < (4096 : UInt32).toNat := by decide
  have hremain : (AmiConn.remain (counted 4096 []
      (UInt32.ofNat (List.replicate 4096 (97 : UInt8)).length))).toNat = 4095 := by
    rw [List.length_replicate, remain_eq_min hx (by decide) (by decide), Int.toNat_natCast]
    rfl
  obtain ⟨hbytes, hend⟩ := feed_spec (n := 4095) (l := List.replicate 4096 97)
    (.nil rfl : Open messageComplete [])
  have hall : (feed messageComplete 4095 [] (List.replicate 4096 97)).1 =
      List.replicate 4095 97 := by
    obtain hpiece | ⟨-, htake⟩ := hend
    · have hmem : ∀ b ∈ (feed messageComplete 4095 [] (List.replicate 4096 97)).1, b = 97 := by
        intro b hb
        apply List.eq_of_mem_replicate (n := 4096)
        rw [← List.nil_append (List.replicate 4096 97), ← hbytes]
        exact List.mem_append_left _ hb
      rw [Piece, List.eq_replicate_of_mem hmem, messageComplete_replicate] at hpiece
      exact absurd hpiece.1 Bool.false_ne_true
    · rw [htake, List.nil_append, List.take_replicate]
      rfl
  have hsplit : List.replicate 4096 (97 : UInt8) = List.replicate 4095 97 ++ [97] :=
    List.replicate_succ'
  rw [hall, List.nil_append] at hbytes
  apply stuck_of_feed (y := List.replicate 4095 97) (by decide) (by decide)
  · rw [hremain]
    exact Prod.ext hall (List.append_cancel_left (hbytes.trans hsplit))
  · rw [List.length_replicate]
    rfl
  · exact messageComplete_replicate 4095

end Runs

end Tst
