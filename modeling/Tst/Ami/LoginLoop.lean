import Tst.Ami.Attempt
import Tst.Ami.Scan

/-!
# How long the login takes

The loop of `amiLogin()` counts its retries down while fewer than 22 bytes are held, and starts to
count again when the login action has been written. It reads whatever has arrived to behind what
is held.

## Main definitions

- `found` — the rounds of a run of the loop that find bytes
- `LoginConn.Waits` — what holds while the loop goes on
- `LoginServed` — what is to be read ends where the loop can go on

## Main results

- `loop_found` — rounds that find nothing change nothing but the number of retries
- `loop_rounds` — the rounds of a run that does not wait behind an open line
- `login_ends_iff` — the loop ends within a bound and stays in its buffer for every timing of the
  bytes exactly when they are `LoginServed`
-/

namespace Tst

open Bytes CString

/-- The rounds that find bytes. -/
def found (qs : List LoginInput) : List LoginInput := qs.filter fun q => q.bytes ≠ []

/-- The number of bytes that are found. -/
def received (qs : List LoginInput) : Nat := (qs.map fun q => q.bytes.length).sum

/-- Wherever the bytes pause, and behind the last of them, fewer than 22 are held once the login
action has been written; and those that come next fit behind the ones that are held. -/
def LoginServed (rs : List LoginInput) : Prop :=
  ∀ ps login, ps <+: rs → LoginConn.loop {} ps = (login, none) →
    (login.connected ≠ 0 → login.recv.comLen < 22) ∧
      ∀ r, ps ++ [r] <+: rs → login.recv.comLen.toNat + r.bytes.length ≤ 4096

-- ════════════════════════════════════════════════════════════════════════
-- The parser comes to an end
-- ════════════════════════════════════════════════════════════════════════

section Parser

variable {events e : AmiEvents} {p fuel : Nat} {start : Option Nat} {isHeader : Bool}

theorem setSlot_ne_endless {i : Nat} {q : Option Nat} :
    events.setSlot i q ≠ .error .endless := by
  rw [AmiEvents.setSlot]
  split
  · simp
  · simp

theorem endKey_length (h : events.endKey p start = .ok e) : e.event.length = events.event.length := by
  rw [(endKey_eq_ok h).2]
  exact List.length_set

theorem endValue_length (h : events.endValue p start = .ok e) :
    e.event.length = events.event.length := by
  obtain ⟨event, hevent, h⟩ := bind_eq_ok.mp h
  obtain ⟨event', hevent', h⟩ := bind_eq_ok.mp h
  obtain rfl := store_eq_ok hevent
  obtain rfl := store_eq_ok hevent'
  have hlen : ((events.event.set p 0).set (p + 1) 0).length = events.event.length := by
    rw [List.length_set, List.length_set]
  split at h
  · obtain ⟨e', he', h⟩ := bind_eq_ok.mp h
    obtain ⟨-, rfl⟩ := setSlot_eq_ok he'
    rw [← Except.ok.inj h]
    exact hlen
  · rw [← Except.ok.inj h]
    exact hlen

theorem endKey_ne_endless : events.endKey p start ≠ .error .endless :=
  bind_ne_endless store_ne_endless fun _ _ => setSlot_ne_endless

theorem endValue_ne_endless : events.endValue p start ≠ .error .endless := by
  refine bind_ne_endless store_ne_endless fun _ _ => ?_
  refine bind_ne_endless store_ne_endless fun _ _ => ?_
  split
  · exact bind_ne_endless setSlot_ne_endless fun _ _ h =>
      absurd h (by simp [pure, Except.pure])
  · simp [pure, Except.pure]

theorem atLineEnd_ne_endless : events.atLineEnd p ≠ .error .endless := by
  refine bind_ne_endless load_ne_endless fun b _ => ?_
  split
  · exact bind_ne_endless load_ne_endless fun _ _ h => absurd h (by simp [pure, Except.pure])
  · simp [pure, Except.pure]

/-- The pointer of the parser moves on within the text. -/
theorem parseLoop_ne_endless (hfuel : 0 < fuel) (hlen : events.event.length < p + fuel) :
    AmiEvents.parseLoop fuel events p start isHeader ≠ .error .endless := by
  induction fuel generalizing events p start isHeader with
  | zero => exact absurd hfuel (Nat.lt_irrefl 0)
  | succ fuel ih =>
    rw [AmiEvents.parseLoop]
    refine bind_ne_endless load_ne_endless fun b hb => ?_
    obtain ⟨hp, -⟩ := List.getElem?_eq_some_iff.mp (load_eq_ok hb)
    split
    · simp [pure, Except.pure]
    · split
      · split
        · refine bind_ne_endless endKey_ne_endless fun e he => ?_
          have hsame := endKey_length he
          exact ih (by omega) (by omega)
        · exact ih (by omega) (by omega)
      · refine bind_ne_endless atLineEnd_ne_endless fun atEnd _ => ?_
        split
        · refine bind_ne_endless endValue_ne_endless fun e he => ?_
          have hsame := endValue_length he
          exact ih (by omega) (by omega)
        · exact ih (by omega) (by omega)

theorem strSlot_ne_endless {i : Nat} : events.strSlot i ≠ .error .endless :=
  bind_ne_endless deref_ne_endless fun _ _ => str_ne_endless

theorem getAmivalue_ne_endless {key : List UInt8} :
    events.getAmivalue key ≠ .error .endless := by
  have hloop : ∀ n, events.getAmivalueLoop key n ≠ .error .endless := by
    intro n
    induction n with
    | zero => simp [AmiEvents.getAmivalueLoop]
    | succ n ih =>
      rw [AmiEvents.getAmivalueLoop]
      refine bind_ne_endless strSlot_ne_endless fun _ _ => ?_
      split
      · exact strSlot_ne_endless
      · exact ih
  exact hloop _

/-- What is done with a message comes to an end. -/
theorem loginResponse_ne_endless : events.loginResponse ≠ .error .endless := by
  have hparse : events.parseAmievent ≠ .error .endless :=
    parseLoop_ne_endless (Nat.succ_pos _) (by simp)
  refine bind_ne_endless hparse fun e _ => ?_
  split
  · simp [pure, Except.pure]
  · refine bind_ne_endless strSlot_ne_endless fun _ _ => ?_
    split
    · refine bind_ne_endless strSlot_ne_endless fun _ _ => ?_
      split
      · simp [pure, Except.pure]
      · exact bind_ne_endless getAmivalue_ne_endless fun _ _ h =>
          absurd h (by simp [pure, Except.pure])
    · simp [pure, Except.pure]

end Parser

namespace LoginConn

/-- What holds while the loop goes on. -/
structure Waits (w : LoginConn) : Prop where
  sLen : w.recv.sLen = 4096
  length : w.recv.s.length = 4096
  com : w.recv.comLen.toNat ≤ 4096
  retry : 1 ≤ w.retry
  banner : w.connected = 0 → w.recv.comLen < 22
  line : ¬ w.recv.comLen < 22 → w.endsLine = false

/-- How a round goes on when it has read: too little is held, the login action is written, the line
is open, or the message is not a response. -/
inductive GoesOn (w : LoginConn) : LoginConn → Prop
  | short (hshort : w.recv.comLen < 22) (hretry : w.retry - 1 ≠ 0) :
      GoesOn w { w with retry := w.retry - 1 }
  | written (hlong : ¬ w.recv.comLen < 22) (hbanner : w.connected = 0) :
      GoesOn w { w with
        actionid := w.actionid + 1, connected := 1, retry := 100, recv := w.recv.resetData }
  | openLine (hlong : ¬ w.recv.comLen < 22) (hconnected : w.connected ≠ 0)
      (hopen : w.endsLine = false) : GoesOn w w
  | message (hlong : ¬ w.recv.comLen < 22) (hconnected : w.connected ≠ 0)
      (hends : w.endsLine = true) : GoesOn w { w with recv := w.recv.resetData }

/-- The rounds that are left for the banner. -/
def rank (w : LoginConn) : Nat := w.retry + if w.connected = 0 then 101 else 0

-- ════════════════════════════════════════════════════════════════════════
-- One round
-- ════════════════════════════════════════════════════════════════════════

section Round

variable {w w' v : LoginConn} {bytes : List UInt8} {wrote : Bool} {junk : LocalEvents}

/-- What a round reads, it reads to behind what is held. -/
theorem fetch_eq_ok (h : w.fetch bytes = .ok v) (hw : w.Waits) :
    v.connected = w.connected ∧ v.retry = w.retry ∧ v.actionid = w.actionid ∧
      v.recv.sLen = 4096 ∧ v.recv.s.length = 4096 ∧
      v.recv.comLen.toNat = w.recv.comLen.toNat + bytes.length ∧
      w.recv.comLen.toNat + bytes.length ≤ 4096 := by
  rw [fetch] at h
  split at h
  · next hnil =>
    obtain rfl := Except.ok.inj h
    rw [hnil]
    exact ⟨rfl, rfl, rfl, hw.sLen, hw.length, rfl, hw.com⟩
  · split at h
    · next hfit =>
      obtain rfl := Except.ok.inj h
      have hroom : w.recv.comLen.toNat + bytes.length ≤ 4096 := hw.length ▸ hfit
      have hcom : (addResult w.recv.comLen (some bytes.length)).toNat =
          w.recv.comLen.toNat + bytes.length :=
        toNat_addResult_some (Nat.lt_of_le_of_lt hroom (by decide))
      exact ⟨rfl, rfl, rfl, hw.sLen, (length_splice ..).trans hw.length, hcom, hroom⟩
    · exact absurd h (by simp)

/-- A round that finds nothing. -/
theorem fetch_nil (w : LoginConn) :
    w.fetch [] = .ok { w with recv := { w.recv with checkedLen := 0 } } := by
  rw [fetch, if_pos rfl]
  rfl

theorem goesOn_of_iterate (h : w.iterate bytes wrote junk = (w', none)) :
    ∃ v, w.fetch bytes = .ok v ∧ GoesOn v w' := by
  rw [iterate] at h
  cases hfetch : w.fetch bytes with
  | error f => simp [hfetch] at h
  | ok v =>
    refine ⟨v, rfl, ?_⟩
    rw [hfetch] at h
    dsimp only at h
    split at h
    · next hshort =>
      obtain ⟨rfl, hnone⟩ := Prod.mk.inj h
      refine .short hshort fun hzero => ?_
      rw [if_pos hzero] at hnone
      exact absurd hnone (by simp)
    · next hlong =>
      split at h
      · next hbanner =>
        split at h
        · rw [writeAction] at h
          dsimp only at h
          split at h
          · obtain ⟨rfl, -⟩ := Prod.mk.inj h
            exact .written hlong hbanner
          · exact absurd (Prod.mk.inj h).2 (by simp)
        · exact absurd (Prod.mk.inj h).2 (by simp)
      · next hconnected =>
        rw [checkResponse] at h
        split at h
        · next hends =>
          dsimp only at h
          split at h
          · exact absurd (Prod.mk.inj h).2 (by simp)
          · obtain ⟨rfl, -⟩ := Prod.mk.inj h
            exact .message hlong hconnected hends
          · exact absurd (Prod.mk.inj h).2 (by simp)
          · exact absurd (Prod.mk.inj h).2 (by simp)
        · next hopen =>
          obtain ⟨rfl, -⟩ := Prod.mk.inj h
          exact .openLine hlong hconnected (Bool.not_eq_true _ ▸ hopen)

/-- What a round keeps. -/
theorem Waits.round (hw : w.Waits) (h : w.iterate bytes wrote junk = (w', none)) : w'.Waits := by
  obtain ⟨v, hfetch, hon⟩ := goesOn_of_iterate h
  obtain ⟨-, hretry, -, hsLen, hlength, hcom, hroom⟩ := fetch_eq_ok hfetch hw
  have hle : v.recv.comLen.toNat ≤ 4096 := by omega
  have hempty : v.recv.resetData.s.length = 4096 := by
    rw [TstData.length_resetData, hlength]
  have hnone : (0 : UInt32) < 22 := by decide
  have hmore : 1 ≤ 100 := by decide
  cases hon with
  | short hshort hleft =>
    exact ⟨hsLen, hlength, hle, Nat.pos_of_ne_zero hleft, fun _ => hshort,
      fun hlong => absurd hshort hlong⟩
  | written hlong hbanner =>
    exact ⟨hsLen, hempty, Nat.zero_le _, hmore, fun _ => hnone, fun hlong => absurd hnone hlong⟩
  | openLine hlong hconnected hopen =>
    exact ⟨hsLen, hlength, hle, hretry ▸ hw.retry, fun hbanner => absurd hbanner hconnected,
      fun _ => hopen⟩
  | message hlong hconnected hends =>
    exact ⟨hsLen, hempty, Nat.zero_le _, hretry ▸ hw.retry, fun _ => hnone,
      fun hlong => absurd hnone hlong⟩

/-- A round uses up a retry or a byte, if it does not find nothing behind an open line. -/
theorem Waits.rank_round (hw : w.Waits) (h : w.iterate bytes wrote junk = (w', none))
    (hfound : bytes ≠ [] ∨ (w.connected ≠ 0 → w.recv.comLen < 22)) :
    1 + w'.rank ≤ w.rank + bytes.length := by
  obtain ⟨v, hfetch, hon⟩ := goesOn_of_iterate h
  obtain ⟨hsame, hretry, -, -, -, -, -⟩ := fetch_eq_ok hfetch hw
  have hpos := hw.retry
  -- where nothing is found, as much is held as before
  have hshort : bytes = [] → v.recv.comLen < 22 := by
    rintro rfl
    rw [fetch_nil] at hfetch
    obtain rfl := Except.ok.inj hfetch
    by_cases hbanner : w.connected = 0
    · exact hw.banner hbanner
    · exact hfound.resolve_left (not_not_intro rfl) hbanner
  have hbyte : ¬ v.recv.comLen < 22 → 1 ≤ bytes.length := fun hlong =>
    List.length_pos_iff.mpr fun hnil => hlong (hshort hnil)
  cases hon with
  | short hshort hleft =>
    simp only [rank, hretry, hsame] at hleft ⊢
    omega
  | written hlong hbanner =>
    rw [hsame] at hbanner
    simp only [rank, hbanner, if_true, one_ne_zero, if_false]
    omega
  | openLine hlong hconnected hopen =>
    have hlen := hbyte hlong
    simp only [rank, hretry, hsame]
    omega
  | message hlong hconnected hends =>
    have hlen := hbyte hlong
    simp only [rank, hretry, hsame]
    omega

end Round

-- ════════════════════════════════════════════════════════════════════════
-- Rounds that find nothing
-- ════════════════════════════════════════════════════════════════════════

section Timing

variable {v w w' f : LoginConn} {bytes : List UInt8} {wrote : Bool} {junk : LocalEvents}
  {qs : List LoginInput} {q : LoginInput} {n : Nat} {c : UInt32}

/-- The number of retries, and what `ioctl()` found last, do not matter for a read. -/
theorem fetch_retry (v : LoginConn) (n : Nat) (c : UInt32) (bytes : List UInt8) :
    { v with retry := n, recv := { v.recv with checkedLen := c } }.fetch bytes =
      (v.fetch bytes).map fun f => { f with retry := n } := by
  rw [fetch, fetch]
  split
  · rfl
  · dsimp only
    split
    · rfl
    · rfl

theorem checkResponse_retry (f : LoginConn) (n : Nat) (junk : LocalEvents) :
    { f with retry := n }.checkResponse junk =
      ({ (f.checkResponse junk).1 with retry := n }, (f.checkResponse junk).2) := by
  have hends : { f with retry := n }.endsLine = f.endsLine := rfl
  rw [checkResponse, checkResponse, hends]
  split
  · dsimp only
    split
    · rfl
    · rfl
    · rfl
    · rfl
  · rfl

/-- A round that goes on does so with more retries as well. -/
theorem iterate_retry (h : v.iterate bytes wrote junk = (w, none)) (hn : v.retry ≤ n) (c : UInt32) :
    ∃ n', { v with retry := n, recv := { v.recv with checkedLen := c } }.iterate bytes wrote junk =
      ({ w with retry := n' }, none) ∧ w.retry ≤ n' := by
  rw [iterate] at h ⊢
  rw [fetch_retry]
  cases hfetch : v.fetch bytes with
  | error e => simp [hfetch] at h
  | ok f =>
    have hretry : f.retry = v.retry := by
      rw [fetch] at hfetch
      split at hfetch
      · rw [← Except.ok.inj hfetch]
      · split at hfetch
        · rw [← Except.ok.inj hfetch]
        · exact absurd hfetch (by simp)
    rw [hfetch] at h
    simp only [Except.map] at h ⊢
    by_cases hshort : f.recv.comLen < 22
    · rw [if_pos hshort] at h ⊢
      obtain ⟨rfl, hnone⟩ := Prod.mk.inj h
      have hleft : f.retry - 1 ≠ 0 := fun hzero => by simp [hzero] at hnone
      have hmore : n - 1 ≠ 0 := by omega
      refine ⟨n - 1, ?_, ?_⟩
      · rw [if_neg hmore]
      · dsimp only
        omega
    · rw [if_neg hshort] at h ⊢
      by_cases hbanner : f.connected = 0
      · rw [if_pos hbanner] at h ⊢
        split at h
        · next hmanager =>
          rw [if_pos hmanager]
          rw [writeAction] at h ⊢
          split at h
          · next hwrote =>
            obtain ⟨rfl, -⟩ := Prod.mk.inj h
            rw [if_pos hwrote]
            exact ⟨100, rfl, Nat.le_refl _⟩
          · exact absurd (Prod.mk.inj h).2 (by simp)
        · exact absurd (Prod.mk.inj h).2 (by simp)
      · rw [if_neg hbanner] at h ⊢
        rw [checkResponse_retry, h]
        refine ⟨n, rfl, ?_⟩
        have hsame : (f.checkResponse junk).1.retry = f.retry := by
          have hcopy := checkResponse_retry f f.retry junk
          exact congrArg (fun r => r.1.retry) hcopy
        rw [h] at hsame
        exact hsame.le.trans (hretry.le.trans hn)

/-- A round that finds nothing and goes on changes nothing else. -/
theorem Waits.idle (hv : v.Waits) (h : v.iterate [] wrote junk = (w, none)) :
    w.retry ≤ v.retry ∧
      w = { v with retry := w.retry, recv := { v.recv with checkedLen := 0 } } := by
  obtain ⟨f, hfetch, hon⟩ := goesOn_of_iterate h
  rw [fetch_nil] at hfetch
  obtain rfl := Except.ok.inj hfetch
  cases hon with
  | short hshort hleft => exact ⟨Nat.sub_le _ _, rfl⟩
  | written hlong hbanner => exact absurd (hv.banner hbanner) hlong
  | openLine hlong hconnected hopen => exact ⟨Nat.le_refl _, rfl⟩
  | message hlong hconnected hends =>
    have hopen : v.endsLine = false := hv.line hlong
    exact absurd (hopen.symm.trans hends) Bool.false_ne_true

/-- A run goes on by one more round. -/
theorem loop_concat : w.loop (qs ++ [q]) = (w', none) ↔
    ∃ v, w.loop qs = (v, none) ∧ v.iterate q.bytes q.wrote q.junk = (w', none) := by
  induction qs generalizing w with
  | nil =>
    have hone : w.loop [q] = w.iterate q.bytes q.wrote q.junk := by
      rw [loop]
      split
      · next hend => exact hend.symm
      · next hend => exact hend.symm
    rw [List.nil_append, hone]
    constructor
    · exact fun h => ⟨w, rfl, h⟩
    · rintro ⟨v, hv, h⟩
      obtain ⟨rfl, -⟩ := Prod.mk.inj hv
      exact h
  | cons r qs ih =>
    rw [List.cons_append, loop, loop]
    split
    · simp
    · exact ih

theorem waits_start : Waits {} where
  sLen := rfl
  length := List.length_replicate
  com := Nat.zero_le _
  retry := of_decide_eq_true rfl
  banner := fun _ => of_decide_eq_true rfl
  line := fun h => absurd (of_decide_eq_true rfl) h

/-- Every state of the loop that goes on waits for bytes. -/
theorem waits_of_loop (h : loop {} qs = (w, none)) : w.Waits := by
  induction qs using List.reverseRecOn generalizing w with
  | nil =>
    obtain ⟨rfl, -⟩ := Prod.mk.inj h
    exact waits_start
  | append_singleton qs q ih =>
    obtain ⟨v, hv, hround⟩ := loop_concat.mp h
    exact (ih hv).round hround

/-- Rounds that find nothing change nothing but the number of retries. -/
theorem loop_found (h : loop {} qs = (w, none)) :
    ∃ n c, loop {} (found qs) =
      ({ w with retry := n, recv := { w.recv with checkedLen := c } }, none) ∧ w.retry ≤ n := by
  induction qs using List.reverseRecOn generalizing w with
  | nil =>
    obtain ⟨rfl, -⟩ := Prod.mk.inj h
    exact ⟨100, 0, rfl, Nat.le_refl _⟩
  | append_singleton qs q ih =>
    obtain ⟨v, hv, hround⟩ := loop_concat.mp h
    obtain ⟨n, c, hfound, hn⟩ := ih hv
    rw [found, List.filter_append]
    by_cases hbytes : q.bytes = []
    · rw [hbytes] at hround
      obtain ⟨hle, hsame⟩ := (waits_of_loop hv).idle hround
      rw [List.filter_cons_of_neg (by simpa using hbytes), List.filter_nil, List.append_nil]
      refine ⟨n, c, ?_, hle.trans hn⟩
      rw [hsame]
      exact hfound
    · rw [List.filter_cons_of_pos (by simpa using hbytes), List.filter_nil]
      obtain ⟨n', hround', hn'⟩ := iterate_retry hround hn c
      exact ⟨n', w.recv.checkedLen, loop_concat.mpr ⟨_, hfound, hround'⟩, hn'⟩

end Timing

-- ════════════════════════════════════════════════════════════════════════
-- Runs of the loop
-- ════════════════════════════════════════════════════════════════════════

section Runs

variable {w v : LoginConn} {qs ps rs : List LoginInput} {q r : LoginInput}

theorem iterate_ne_endless (w : LoginConn) (q : LoginInput) :
    (w.iterate q.bytes q.wrote q.junk).2 ≠ some (.fault .endless) := by
  rw [iterate]
  cases hfetch : w.fetch q.bytes with
  | error e =>
    rw [fetch] at hfetch
    split at hfetch
    · exact absurd hfetch (by simp)
    · split at hfetch
      · exact absurd hfetch (by simp)
      · obtain rfl := Except.error.inj hfetch
        simp
  | ok v =>
    dsimp only
    split
    · dsimp only
      split
      · simp
      · simp
    · split
      · split
        · rw [writeAction]
          dsimp only
          split
          · simp
          · simp
        · simp
      · rw [checkResponse]
        split
        · dsimp only
          split
          · next e he =>
            intro hend
            obtain rfl : e = .endless := by simpa using hend
            exact loginResponse_ne_endless he
          · simp
          · simp
          · simp
        · simp

/-- No round hangs in the parser. -/
theorem loop_ne_endless (w : LoginConn) (qs : List LoginInput) :
    (w.loop qs).2 ≠ some (.fault .endless) := by
  induction qs generalizing w with
  | nil => simp [loop]
  | cons q qs ih =>
    have hround := w.iterate_ne_endless q
    rw [loop]
    split
    · next e he =>
      rw [he] at hround
      exact hround
    · exact ih _

theorem received_concat (qs : List LoginInput) (q : LoginInput) :
    received (qs ++ [q]) = received qs + q.bytes.length := by
  simp [received]

theorem received_found (qs : List LoginInput) : received (found qs) = received qs := by
  induction qs with
  | nil => rfl
  | cons q qs ih =>
    rw [found] at ih ⊢
    by_cases hbytes : q.bytes = []
    · rw [List.filter_cons_of_neg (by simpa using hbytes), ih]
      simp [received, hbytes]
    · rw [List.filter_cons_of_pos (by simpa using hbytes)]
      simp only [received, List.map_cons, List.sum_cons] at ih ⊢
      rw [ih]

theorem received_prefix (h : ps <+: rs) : received ps ≤ received rs := by
  obtain ⟨ts, rfl⟩ := h
  simp [received]

theorem found_concat (qs : List LoginInput) (q : LoginInput) :
    found (qs ++ [q]) = found qs ++ if q.bytes = [] then [] else [q] := by
  rw [found, List.filter_append]
  congr 1
  split
  · next hbytes => exact List.filter_cons_of_neg (by simpa using hbytes)
  · next hbytes => exact List.filter_cons_of_pos (by simpa using hbytes)

/-- A state that the loop reaches, whatever the timing, is one that it reaches without pauses. -/
theorem served_state (hserved : LoginServed rs) (hqs : found qs <+: rs)
    (h : loop {} qs = (w, none)) : (w.connected ≠ 0 → w.recv.comLen < 22) ∧
      ∀ r, found qs ++ [r] <+: rs → w.recv.comLen.toNat + r.bytes.length ≤ 4096 := by
  obtain ⟨n, c, hfound, -⟩ := loop_found h
  have hstate := hserved _ _ hqs hfound
  exact hstate

/-- The rounds of a run that does not wait behind an open line. -/
theorem served_rounds (hserved : LoginServed rs) (hqs : found qs <+: rs)
    (h : loop {} qs = (w, none)) : qs.length + w.rank ≤ 201 + received qs := by
  induction qs using List.reverseRecOn generalizing w with
  | nil =>
    obtain ⟨rfl, -⟩ := Prod.mk.inj h
    exact Nat.le_refl _
  | append_singleton qs q ih =>
    obtain ⟨v, hv, hround⟩ := loop_concat.mp h
    have hbefore : found qs <+: rs := by
      rw [found_concat] at hqs
      exact (List.prefix_append _ _).trans hqs
    have hle := ih hbefore hv
    have hrank := (waits_of_loop hv).rank_round hround (.inr (served_state hserved hbefore hv).1)
    rw [received_concat, List.length_append, List.length_singleton]
    omega

/-- A round that finds nothing. -/
def idle : LoginInput := ⟨[], true, zeroJunk⟩

/-- The loop goes on behind an open line while nothing arrives. -/
theorem loop_idle (h : loop {} qs = (w, none)) (hconnected : w.connected ≠ 0)
    (hlong : ¬ w.recv.comLen < 22) (k : Nat) :
    ∃ c, loop {} (qs ++ List.replicate k idle) =
      ({ w with recv := { w.recv with checkedLen := c } }, none) := by
  have hw := waits_of_loop h
  induction k with
  | zero => exact ⟨w.recv.checkedLen, by rw [List.replicate_zero, List.append_nil, h]⟩
  | succ k ih =>
    obtain ⟨c, hk⟩ := ih
    have hopen : endsLine { w with recv := { w.recv with checkedLen := 0 } } = false :=
      hw.line hlong
    refine ⟨0, ?_⟩
    rw [List.replicate_succ', ← List.append_assoc]
    refine loop_concat.mpr ⟨_, hk, ?_⟩
    rw [iterate, idle, fetch_nil]
    dsimp only
    rw [if_neg hlong, if_neg hconnected, checkResponse, hopen]
    rfl

theorem found_idle (h : ∀ p ∈ ps, p.bytes ≠ []) (k : Nat) :
    found (ps ++ List.replicate k idle) = ps := by
  have hall : ps.filter (fun q => q.bytes ≠ []) = ps :=
    List.filter_eq_self.mpr fun p hp => by simpa using h p hp
  have hnone : (List.replicate k idle).filter (fun q => q.bytes ≠ []) = [] := by
    rw [List.filter_eq_nil_iff]
    intro q hq
    rw [List.eq_of_mem_replicate hq]
    simp [idle]
  rw [found, List.filter_append, hall, hnone, List.append_nil]

end Runs

end LoginConn

open LoginConn

/-- The peer sends bytes that are read in the groups of `rs`, and nothing behind them. Whatever the
pauses, the loop ends within a number of rounds that its retries and the bytes bound, and no read
goes past the buffer, exactly when the groups are `LoginServed`. -/
theorem login_ends_iff (rs : List LoginInput) (hrs : ∀ r ∈ rs, r.bytes ≠ []) :
    ((∀ qs, found qs <+: rs →
        (LoginConn.loop {} qs).2 = none ∨ (LoginConn.loop {} qs).2 = some (.fault .endless) →
        qs.length ≤ 2 * 100 + received rs) ∧
      ∀ qs q login, found (qs ++ [q]) <+: rs → LoginConn.loop {} qs = (login, none) →
        login.recv.comLen.toNat + q.bytes.length ≤ login.recv.sLen.toNat) ↔
      LoginServed rs := by
  have hsize : (4096 : UInt32).toNat = 4096 := rfl
  constructor
  · rintro ⟨hends, hinside⟩ ps login hps hloop
    have hnonempty : ∀ p ∈ ps, p.bytes ≠ [] := fun p hp => hrs p (hps.subset hp)
    refine ⟨fun hconnected => ?_, fun r hr => ?_⟩
    · -- the loop goes on for as long as the peer is silent
      by_contra hlong
      obtain ⟨c, hidle⟩ := loop_idle hloop hconnected hlong (2 * 100 + received rs + 1)
      have hfound := found_idle hnonempty (2 * 100 + received rs + 1)
      have hbound := hends (ps ++ List.replicate (2 * 100 + received rs + 1) idle)
        (hfound.symm ▸ hps) (.inl (by rw [hidle]))
      rw [List.length_append, List.length_replicate] at hbound
      omega
    · have hall : found (ps ++ [r]) <+: rs := by
        have hfound : found (ps ++ [r]) = ps ++ [r] :=
          List.filter_eq_self.mpr fun p hp => by simpa using hrs p (hr.subset hp)
        rw [hfound]
        exact hr
      have hread := hinside ps r login hall hloop
      rw [(waits_of_loop hloop).sLen, hsize] at hread
      exact hread
  · intro hserved
    refine ⟨fun qs hqs hgoes => ?_, fun qs q login hqs hloop => ?_⟩
    · have hnone : (LoginConn.loop {} qs).2 = none :=
        hgoes.resolve_right (loop_ne_endless {} qs)
      have hrounds := served_rounds hserved hqs (Prod.ext rfl hnone)
      have hwaits := waits_of_loop (Prod.ext rfl hnone : LoginConn.loop {} qs = (_, none))
      have hretry := hwaits.retry
      have hbytes : received qs ≤ received rs := by
        rw [← received_found]
        exact received_prefix hqs
      rw [rank] at hrounds
      omega
    · rw [(waits_of_loop hloop).sLen, hsize]
      rw [found_concat] at hqs
      split at hqs
      · next hnil =>
        rw [hnil]
        exact (waits_of_loop hloop).com
      · exact (served_state hserved ((List.prefix_append _ _).trans hqs) hloop).2 q hqs

/-- The banner in one read. -/
def bannerRead : LoginInput := ⟨loginOk.banner, true, zeroJunk⟩

/-- The response in one read. -/
def responseRead : LoginInput := ⟨loginOk.response, true, zeroJunk⟩

/-- The response without its last bytes. -/
def openRead : LoginInput := ⟨loginOk.response.take 24, true, zeroJunk⟩

theorem served_ok : LoginServed [bannerRead, responseRead] := by
  intro ps login hps hloop
  have hsmall : login.recv.comLen < 22 := by
    have hlogin : login = (LoginConn.loop {} ps).1 := by rw [hloop]
    obtain rfl | ⟨ts, rfl, hts⟩ := List.prefix_cons_iff.mp hps
    · rw [hlogin]
      decide +kernel
    · obtain rfl | ⟨us, rfl, hus⟩ := List.prefix_cons_iff.mp hts
      · rw [hlogin]
        decide +kernel
      · obtain rfl := List.prefix_nil.mp hus
        rw [hlogin]
        decide +kernel
  refine ⟨fun _ => hsmall, fun r hr => ?_⟩
  have hlen : ∀ r ∈ [bannerRead, responseRead], r.bytes.length ≤ 32 := by decide
  have hrlen := hlen r (hr.subset (List.mem_append_right _ (List.mem_singleton_self r)))
  have hcom : login.recv.comLen.toNat < (22 : UInt32).toNat := UInt32.lt_iff_toNat_lt.mp hsmall
  have htwo : (22 : UInt32).toNat = 22 := rfl
  omega

theorem login_ends_ok :
    (∀ qs, found qs <+: [bannerRead, responseRead] →
        (LoginConn.loop {} qs).2 = none ∨ (LoginConn.loop {} qs).2 = some (.fault .endless) →
        qs.length ≤ 2 * 100 + received [bannerRead, responseRead]) ∧
      ∀ qs q login, found (qs ++ [q]) <+: [bannerRead, responseRead] →
        LoginConn.loop {} qs = (login, none) →
        login.recv.comLen.toNat + q.bytes.length ≤ login.recv.sLen.toNat :=
  (login_ends_iff [bannerRead, responseRead] (by decide)).mpr served_ok

/-- The peer falls silent within the response: the loop does not come to an end. -/
theorem login_hangs :
    ¬ ∀ rs : List LoginInput, (∀ r ∈ rs, r.bytes ≠ []) →
      ∃ n, ∀ qs, found qs <+: rs → (LoginConn.loop {} qs).2 = none → qs.length ≤ n := by
  intro h
  obtain ⟨n, hn⟩ := h [bannerRead, openRead] (by decide)
  have hgoes : (LoginConn.loop {} [bannerRead, openRead]).2 = none := by decide +kernel
  obtain ⟨c, hidle⟩ := loop_idle (Prod.ext rfl hgoes) (by decide +kernel) (by decide +kernel) (n + 1)
  have hfound := found_idle (show ∀ p ∈ [bannerRead, openRead], p.bytes ≠ [] by decide) (n + 1)
  have hprefix : found ([bannerRead, openRead] ++ List.replicate (n + 1) idle) <+:
      [bannerRead, openRead] := by
    rw [hfound]
  have hbound := hn _ hprefix (by rw [hidle])
  rw [List.length_append, List.length_replicate] at hbound
  omega

end Tst
