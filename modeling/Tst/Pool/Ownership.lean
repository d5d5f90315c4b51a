import Tst.Lib.Execution
import Tst.Lib.Location
import Tst.Pool.Step

/-!
# Who has a connection

A connection is in one place at a time: `tst_main` is bringing it up, its registration is
armed, an event of it is fetched, or a worker has it. The one-shot registration hands it
from one place to the next, as long as nobody re-arms a socket that is in use.

## Main definitions

- `State.At` — the places at which a connection is found
- `needSendOk` — `need_send` is called for an armed socket
- `Owns` — every connection is at one place at most, and its descriptor is its own there

## Main results

- `one_worker_per_socket` — under `needSendOk` no two workers hold a socket, and
  `tst_main` closes none that a worker holds
- `need_send_shares_socket` — in general two workers may hold it
-/

namespace Tst.Pool

open Execution Location

-- ════════════════════════════════════════════════════════════════════════
-- The places of a connection
-- ════════════════════════════════════════════════════════════════════════

inductive Place
  | joining | armed | queued | held (i : Nat) | closing (i : Nat)
  deriving DecidableEq, Repr

/-- The event that `tst_main` is handling. -/
def MainPc.inHand : MainPc → List Event
  | .event e | .client e | .lookup e _ | .closing _ (.event e) => [e]
  | .scan d _ | .setRun d _ | .setSocket d _ => [d.ev]
  | _ => []

/-- The connection that `tst_main` is bringing up. -/
def MainPc.joins : MainPc → Option Conn
  | .accepted c | .add c | .fconnected c | .register c _
  | .closing _ (.add c) | .closing _ (.refused c) => some c
  | _ => none

/-- The events fetched and not handled yet. -/
def State.fetched (s : State) : List Event := s.main.inHand ++ s.batch

/-- The socket of the job that a worker is in, up to its re-arming. -/
def WorkerPc.working : WorkerPc → Option Conn
  | .job c | .call c | .lockEnd c _ | .rearm c _ => some c
  | _ => none

/-- The socket that a slot names, other than one that the worker has given up. -/
def Slot.named (sl : Slot) : Option Conn :=
  match sl.pc with
  | .closing _ _ | .storeNext _ | .clearSocket => none
  | _ => sl.tstSocket

def State.At (s : State) (c : Conn) : Place → Prop
  | .joining => s.main.joins = some c
  | .armed => ∃ fd mask, s.reg fd = some ⟨mask, true⟩ ∧ s.owner fd = some (.conn c)
  | .queued => ∃ e ∈ s.fetched, e.src = .conn c
  | .held i => s.holds i c = true
  | .closing i => ∃ cl, (s.slot i).pc = .closing cl c

/-- What holds of the descriptor and the event that `tst_main` is at work on. -/
def MainPc.Owns (cfg : Config) (s : State) : MainPc → Prop
  | .accepted c | .add c => cfg.listening = true ∧ s.connect (s.sd c) = none
  | .fconnected _ | .register _ _ | .rearmListen => cfg.listening = true
  | .closing _ (.add _) => False
  | .closing cl (.refused c) => cfg.listening = true ∧ cl.sd = s.sd c ∧
      (cl.phase ≠ .erase → s.connect cl.sd = none)
  | .closing cl (.event e) => cl.sd = e.fd ∧ ¬ (e.fd = cfg.sockmain ∧ cfg.listening = true) ∧
      (cl.phase ≠ .erase → s.connect cl.sd = none)
  | .client e | .lookup e _ => ¬ (e.fd = cfg.sockmain ∧ cfg.listening = true)
  | .scan d _ | .setRun d _ | .setSocket d _ => d.ev.src = .conn d.conn
  | _ => True

/-- What holds of the sockets that worker `i` works on. -/
structure Slot.Owns (s : State) (i : Nat) (sl : Slot) : Prop where
  working : ∀ c, sl.pc.working = some c → s.holds i c = true
  named : ∀ c, sl.named = some c → s.holds i c = true
  closing : ∀ cl c, sl.pc = .closing cl c →
    cl.sd = s.sd c ∧ (cl.phase ≠ .erase → s.connect cl.sd = none)

structure Owns (cfg : Config) (s : State) : Prop where
  exclusive : Exclusive s.At
  distinct : s.fetched.Pairwise fun e e' => ∀ c, e.src = .conn c → e'.src ≠ .conn c
  owner : ∀ fd c, s.owner fd = some (.conn c) → s.sd c = fd ∧ c < s.fresh
  live : ∀ c k, s.At c k → s.owner (s.sd c) = some (.conn c)
  entry : ∀ fd c, s.connect fd = some c → s.owner fd = some (.conn c)
  reg : ∀ fd, (s.reg fd).isSome → s.owner fd ≠ none
  source : ∀ e ∈ s.fetched, s.owner e.fd = some e.src
  listen : ∀ fd, s.owner fd = some .listen ↔ fd = cfg.sockmain ∧ cfg.listening = true
  main : s.main.Owns cfg s
  slots : ∀ i, (s.slot i).Owns s i

/-- The actions of `tst_main`, of the workers and of callers of `need_send`. A caller
names a socket whose registration is armed, or one that is not registered. -/
def needSendOk (s : State) : Action → Bool
  | .needSend sd _ =>
    !s.mainRun || (s.reg sd).all fun r => r.armed || s.owner sd = some .listen
  | .othersClose _ _ | .othersStep _ => false
  | _ => true

section Invariant

variable {cfg : Config} {s s' : State} {i : Nat}

theorem Owns.init (cfg : Config) : Owns cfg (.init cfg) := by
  have hslots : ∀ i, ((State.init cfg).slot i).Owns (State.init cfg) i := by
    intro i
    have hslot : (State.init cfg).slot i = {} := by
      simp only [State.init]
      split <;> rfl
    rw [hslot]
    exact ⟨by simp [WorkerPc.working], by simp [Slot.named], by simp⟩
  by_cases hl : cfg.listening = true
  · have hat : ∀ c k, ¬ (State.init cfg).At c k := by
      rintro c (_ | _ | _ | j | j) <;>
        simp [State.init, hl, State.At, MainPc.joins, State.fetched, MainPc.inHand,
          Function.update_apply]
    refine ⟨fun c k _ hk => absurd hk (hat c k), ?_, ?_, fun c k hk => absurd hk (hat c k),
      ?_, ?_, ?_, ?_, ?_, hslots⟩ <;>
      simp [State.init, hl, State.fetched, MainPc.inHand, Function.update_apply, MainPc.Owns]
  · have hat : ∀ c k, (State.init cfg).At c k → c = 0 ∧ k = .armed := by
      rintro c (_ | _ | _ | j | j) <;>
        simp [State.init, hl, State.At, MainPc.joins, State.fetched, MainPc.inHand,
          Function.update_apply, eq_comm]
    refine ⟨fun c k k' hk hk' => (hat c k hk).2.trans (hat c k' hk').2.symm, ?_, ?_,
      fun c k hk => ?_, ?_, ?_, ?_, ?_, ?_, hslots⟩
    · simp [State.init, hl, State.fetched, MainPc.inHand]
    · intro fd c
      by_cases hfd : fd = cfg.sockmain <;>
        simp +contextual [State.init, hl, State.sd, hfd, eq_comm]
    · obtain ⟨rfl, -⟩ := hat c k hk
      simp [State.init, hl, State.sd]
    all_goals
      simp [State.init, hl, State.fetched, MainPc.inHand, Function.update_apply, MainPc.Owns]

theorem Slot.Owns.congr {sl : Slot} (h : sl.Owns s i)
    (hholds : ∀ c, s.holds i c = true → s'.holds i c = true) (hsd : s'.sd = s.sd)
    (hconnect : ∀ fd, s.connect fd = none → s'.connect fd = none) : sl.Owns s' i where
  working c hc := hholds c (h.working c hc)
  named c hc := hholds c (h.named c hc)
  closing cl c hpc := by
    obtain ⟨hfd, hnone⟩ := h.closing cl c hpc
    exact ⟨by rw [hsd, hfd], fun hphase => hconnect _ (hnone hphase)⟩

theorem MainPc.Owns.congr {pc : MainPc} (h : pc.Owns cfg s) (hsd : s'.sd = s.sd)
    (hconnect : ∀ fd, s.connect fd = none → s'.connect fd = none) : pc.Owns cfg s' := by
  cases pc with
  | accepted c | add c => exact ⟨h.1, by rw [hsd]; exact hconnect _ h.2⟩
  | closing cl after =>
    cases after with
    | add c => exact h
    | refused c => exact ⟨h.1, by rw [hsd]; exact h.2.1, fun hp => hconnect _ (h.2.2 hp)⟩
    | event e => exact ⟨h.1, h.2.1, fun hp => hconnect _ (h.2.2 hp)⟩
  | _ => exact h

/-- A step that moves no connection. -/
theorem Owns.frame (h : Owns cfg s) (hat : ∀ c k, s'.At c k → s.At c k)
    (hfetched : s'.fetched.Sublist s.fetched) (howner : s'.owner = s.owner)
    (hsd : s'.sd = s.sd) (hfresh : s'.fresh = s.fresh)
    (hentry : ∀ fd c, s'.connect fd = some c → s.connect fd = some c)
    (hreg : ∀ fd, (s'.reg fd).isSome → (s.reg fd).isSome) (hmain : s'.main.Owns cfg s')
    (hslots : ∀ i, (s'.slot i).Owns s' i) : Owns cfg s' where
  exclusive := h.exclusive.mono hat
  distinct := h.distinct.sublist hfetched
  owner := by rw [howner, hsd, hfresh]; exact h.owner
  live c k hk := by rw [howner, hsd]; exact h.live c k (hat c k hk)
  entry fd c hc := by rw [howner]; exact h.entry fd c (hentry fd c hc)
  reg fd hfd := by rw [howner]; exact h.reg fd (hreg fd hfd)
  source e he := by rw [howner]; exact h.source e (hfetched.subset he)
  listen := by rw [howner]; exact h.listen
  main := hmain
  slots := hslots

/-- A step of `tst_main` that moves no connection. -/
theorem Owns.mainStep (h : Owns cfg s)
    (hjoins : ∀ c, s'.main.joins = some c → s.main.joins = some c)
    (hfetched : s'.fetched.Sublist s.fetched) (howner : s'.owner = s.owner)
    (hsd : s'.sd = s.sd) (hfresh : s'.fresh = s.fresh) (hconnect : s'.connect = s.connect)
    (hreg : s'.reg = s.reg) (hholds : s'.holds = s.holds)
    (hslot : ∀ i, (s'.slot i).pc = (s.slot i).pc ∧ (s'.slot i).tstSocket = (s.slot i).tstSocket)
    (hmain : s'.main.Owns cfg s') : Owns cfg s' := by
  refine h.frame ?_ hfetched howner hsd hfresh (by simp only [hconnect, imp_self, implies_true])
    (by simp only [hreg, imp_self, implies_true]) hmain ?_
  · rintro c (_ | _ | _ | j | j) hk
    · exact hjoins c hk
    · simpa only [State.At, hreg, howner] using hk
    · obtain ⟨e, he, hsrc⟩ := hk
      exact ⟨e, hfetched.subset he, hsrc⟩
    · simpa only [State.At, hholds] using hk
    · simpa only [State.At, (hslot j).1] using hk
  · intro j
    obtain ⟨hw, hn, hc⟩ := h.slots j
    refine ⟨?_, ?_, ?_⟩
    · simpa only [hholds, (hslot j).1] using hw
    · simpa only [hholds, Slot.named, (hslot j).1, (hslot j).2] using hn
    · simpa only [hsd, hconnect, (hslot j).1] using hc

/-- A step of a worker that moves no connection. -/
theorem Owns.workerStep (h : Owns cfg s) {sl : Slot} {sock : Conn → TstSocket}
    (hsd : ({ s with sock } : State).sd = s.sd) (hsl : sl.Owns s i)
    (hclosing : ∀ cl c, sl.pc ≠ .closing cl c) :
    Owns cfg (State.setSlot { s with sock } i sl) := by
  refine h.frame ?_ (.refl _) rfl hsd rfl (fun _ _ hc => hc) (fun _ hr => hr)
    (h.main.congr hsd fun _ hc => hc) ?_
  · rintro c (_ | _ | _ | j | j) hk
    · exact hk
    · exact hk
    · exact hk
    · exact hk
    · obtain ⟨cl, hpc⟩ := hk
      refine ⟨cl, ?_⟩
      by_cases hj : j = i
      · subst hj
        simp only [State.setSlot, Function.update_self] at hpc
        exact absurd hpc (hclosing cl c)
      · simpa only [State.setSlot, Function.update_of_ne hj] using hpc
  · exact forall_setSlot (hsl.congr (fun _ hc => hc) hsd fun _ hc => hc)
      fun j _ => (h.slots j).congr (fun _ hc => hc) hsd fun _ hc => hc

theorem Owns.unplaced (h : Owns cfg s) {c : Conn} (hc : s.fresh ≤ c) (k : Place) :
    ¬ s.At c k := by
  intro hk
  exact absurd hc (Nat.not_le.mpr (h.owner _ c (h.live c k hk)).2)

theorem Owns.fd_eq (h : Owns cfg s) {fd fd' : Fd} {c : Conn} (hfd : s.owner fd = some (.conn c))
    (hfd' : s.owner fd' = some (.conn c)) : fd = fd' :=
  (h.owner fd c hfd).1.symm.trans (h.owner fd' c hfd').1

/-- An event is fetched: its connection was armed and is queued. -/
theorem Owns.deliverOne (h : Owns cfg s) {ev : Fd × Events} (hpc : s.main = .loop)
    (hone : s.deliverOne cfg ev = some s') : Owns cfg s' := by
  obtain ⟨r, src, hreg, howner, harmed, -, rfl⟩ := deliverOne_eq hone
  have hr : s.reg ev.1 = some ⟨r.mask, true⟩ := by rw [hreg, ← harmed]
  -- a registration that is still armed is another one
  have harm : ∀ {fd mask}, Function.update s.reg ev.1 (some { r with armed := false }) fd =
      some ⟨mask, true⟩ → fd ≠ ev.1 ∧ s.reg fd = some ⟨mask, true⟩ := by
    intro fd mask hfd
    by_cases hne : fd = ev.1
    · subst hne
      simp at hfd
    · exact ⟨hne, by simpa [hne] using hfd⟩
  have hat : ∀ c k, State.At { s.setReg ev.1 (some { r with armed := false }) with
      batch := ⟨ev.1, ev.2, src⟩ :: s.batch } c k →
      (src = .conn c ∧ k = .queued) ∨ s.At c k ∧ (src = .conn c → k ≠ .armed) := by
    rintro c (_ | _ | _ | j | j) hk
    · exact .inr ⟨hk, by simp⟩
    · obtain ⟨fd, mask, hfd, hown⟩ := hk
      obtain ⟨hne, hold⟩ := harm hfd
      refine .inr ⟨⟨fd, mask, hold, hown⟩, fun hsrc => ?_⟩
      exact absurd (h.fd_eq hown (hsrc ▸ howner)) hne
    · obtain ⟨e, he, hsrc⟩ := hk
      have he' : e = ⟨ev.1, ev.2, src⟩ ∨ e ∈ s.fetched := by
        simpa [State.fetched, hpc, MainPc.inHand] using he
      rcases he' with rfl | hold
      · exact .inl ⟨hsrc, rfl⟩
      · exact .inr ⟨⟨e, hold, hsrc⟩, by simp⟩
    · exact .inr ⟨hk, by simp⟩
    · exact .inr ⟨hk, by simp⟩
  have harmed₀ : ∀ c, src = .conn c → s.At c .armed :=
    fun c hc => ⟨ev.1, r.mask, hr, hc ▸ howner⟩
  have hfetched : s.fetched = s.batch := by simp [State.fetched, hpc, MainPc.inHand]
  refine ⟨?_, ?_, h.owner, ?_, h.entry, ?_, ?_, h.listen, ?_, ?_⟩
  · cases src with
    | listen => exact h.exclusive.mono fun c k hk => by simpa using hat c k hk
    | conn c₀ =>
      refine h.exclusive.move (harmed₀ c₀ rfl) .queued fun c k hk => ?_
      rcases hat c k hk with ⟨hc, rfl⟩ | ⟨hk, hne⟩
      · exact .inl ⟨by simpa [eq_comm] using hc, rfl⟩
      · exact .inr ⟨hk, fun hc => hne (by rw [hc])⟩
  · simp only [State.fetched, hpc, MainPc.inHand, List.nil_append, State.setReg]
    refine List.pairwise_cons.mpr ⟨fun e he c hc hsrc => ?_, hfetched ▸ h.distinct⟩
    have hq : s.At c .queued := ⟨e, hfetched ▸ he, hsrc⟩
    cases h.exclusive c _ _ hq (harmed₀ c hc)
  · intro c k hk
    rcases hat c k hk with ⟨hc, -⟩ | ⟨hk, -⟩
    · exact h.live c _ (harmed₀ c hc)
    · exact h.live c k hk
  · intro fd hfd
    by_cases hne : fd = ev.1
    · subst hne
      exact h.reg _ (by simp [hreg])
    · exact h.reg fd (by simpa [hne] using hfd)
  · intro e he
    have he' : e = ⟨ev.1, ev.2, src⟩ ∨ e ∈ s.fetched := by
      simpa [State.fetched, hpc, MainPc.inHand] using he
    rcases he' with rfl | hold
    · exact howner
    · exact h.source e hold
  · simp only [hpc, State.setReg]
    trivial
  · exact fun j => (h.slots j).congr (fun _ hc => hc) rfl fun _ hc => hc

/-- A connection comes up. -/
theorem Owns.accept (h : Owns cfg s) {fd : Fd} {sock : TstSocket}
    (hlisten : cfg.listening = true) (hfree : s.owner fd = none) (hsock : sock.sd = fd) :
    Owns cfg { (s.setOwner fd (some (.conn s.fresh))).setSock s.fresh sock with
      fresh := s.fresh + 1
      main := .accepted s.fresh } := by
  have howner : ∀ {fd' o}, fd' ≠ fd →
      ((s.setOwner fd (some (.conn s.fresh))).owner fd' = some o ↔ s.owner fd' = some o) := by
    intro fd' o hne
    simp [hne]
  have hne : ∀ {fd' o}, s.owner fd' = some o → fd' ≠ fd := by
    rintro fd' o ho rfl
    simp [hfree] at ho
  have hsd : ∀ {c}, c ≠ s.fresh → Function.update s.sock s.fresh sock c = s.sock c :=
    fun hc => Function.update_of_ne hc _ _
  have hold : ∀ {c k}, s.At c k → c ≠ s.fresh := by
    rintro c k hk rfl
    exact h.unplaced (Nat.le_refl _) k hk
  have hat : ∀ c k, State.At { (s.setOwner fd (some (.conn s.fresh))).setSock s.fresh sock with
      fresh := s.fresh + 1
      main := .accepted s.fresh } c k → c = s.fresh ∧ k = .joining ∨ s.At c k := by
    rintro c (_ | _ | _ | j | j) hk
    · exact .inl ⟨by simpa [State.At, MainPc.joins, eq_comm] using hk, rfl⟩
    · obtain ⟨fd', mask, hr, ho⟩ := hk
      have hfd : fd' ≠ fd := by
        rintro rfl
        have hr : s.reg fd' = some ⟨mask, true⟩ := hr
        exact h.reg fd' (by rw [hr]; rfl) hfree
      exact .inr ⟨fd', mask, hr, (howner hfd).mp ho⟩
    · obtain ⟨e', he, hsrc⟩ := hk
      exact .inr ⟨e', List.mem_append_right _ he, hsrc⟩
    · exact .inr hk
    · exact .inr hk
  refine ⟨?_, ?_, ?_, ?_, ?_, ?_, ?_, ?_, ?_, ?_⟩
  · exact h.exclusive.enter (h.unplaced (Nat.le_refl _)) .joining hat
  · exact h.distinct.sublist (List.sublist_append_right _ _)
  · intro fd' c ho
    by_cases hfd : fd' = fd
    · obtain rfl : s.fresh = c := by simpa [hfd] using ho
      exact ⟨by simp [State.sd, hsock, hfd], Nat.lt_succ_self _⟩
    · obtain ⟨hc, hlt⟩ := h.owner fd' c ((howner hfd).mp ho)
      exact ⟨by simpa [State.sd, hsd (Nat.ne_of_lt hlt)] using hc, Nat.lt_succ_of_lt hlt⟩
  · intro c k hk
    rcases hat c k hk with ⟨rfl, -⟩ | hk
    · simp [State.sd, hsock]
    · have hc := hold hk
      have ho := h.live c k hk
      have hfd : (s.sock c).sd ≠ fd := hne ho
      simpa [State.sd, hsd hc, hfd] using ho
  · intro fd' c hc
    have ho := h.entry fd' c hc
    exact (howner (hne ho)).mpr ho
  · intro fd' hr
    by_cases hfd : fd' = fd
    · simp [hfd]
    · simpa [hfd] using h.reg fd' hr
  · intro e' he
    have ho := h.source e' (List.mem_append_right _ he)
    exact (howner (hne ho)).mpr ho
  · intro fd'
    by_cases hfd : fd' = fd
    · subst hfd
      simpa [hfree] using (h.listen fd').not.mp (by simp [hfree])
    · exact (howner hfd).trans (h.listen fd')
  · refine ⟨hlisten, ?_⟩
    cases hentry : s.connect fd with
    | none => simpa [State.sd, hsock] using hentry
    | some c => simp [h.entry fd c hentry] at hfree
  · intro j
    obtain ⟨hw, hn, hc⟩ := h.slots j
    refine ⟨hw, hn, fun cl c hpc => ?_⟩
    have hc' := hold (k := .closing j) ⟨cl, hpc⟩
    simpa [State.sd, hsd hc'] using hc cl c hpc

/-- A connection is entered in `m_connect`. -/
theorem Owns.add (h : Owns cfg s) {c : Conn} {sock : TstSocket} (hpc : s.main = .add c)
    (hsock : sock.sd = s.sd c) :
    Owns cfg { (s.setSock c sock).setConnect (s.sd c) (some c) with main := .fconnected c } := by
  have hsd := setSock_sd hsock
  have hmain := h.main
  rw [hpc] at hmain
  have hjoin : s.At c .joining := by simp [State.At, hpc, MainPc.joins]
  have hat : ∀ c' k, State.At { (s.setSock c sock).setConnect (s.sd c) (some c) with
      main := .fconnected c } c' k → s.At c' k := by
    rintro c' (_ | _ | _ | j | j) hk
    · simpa [State.At, hpc, MainPc.joins] using hk
    · exact hk
    · obtain ⟨e', he, hsrc⟩ := hk
      exact ⟨e', List.mem_append_right _ he, hsrc⟩
    · exact hk
    · exact hk
  refine ⟨h.exclusive.mono hat, h.distinct.sublist (List.sublist_append_right _ _), ?_, ?_, ?_,
    h.reg, fun e he => h.source e (List.mem_append_right _ he), h.listen, hmain.1, ?_⟩
  · intro fd c' ho
    exact hsd ▸ h.owner fd c' ho
  · intro c' k hk
    exact hsd ▸ h.live c' k (hat c' k hk)
  · intro fd c' hc
    by_cases hfd : fd = s.sd c
    · obtain rfl : c = c' := by simpa [hfd] using hc
      exact hfd ▸ h.live c _ hjoin
    · exact h.entry fd c' (by simpa [hfd] using hc)
  · intro j
    obtain ⟨hw, hn, hcl⟩ := h.slots j
    refine ⟨hw, hn, fun cl c' hpc' => ?_⟩
    obtain ⟨hfd, hnone⟩ := hcl cl c' hpc'
    have hclosing : s.At c' (.closing j) := ⟨cl, hpc'⟩
    -- another connection than the one that is closed
    have hne : s.sd c' ≠ s.sd c := by
      intro heq
      have ho := h.live c' _ hclosing
      rw [heq, h.live c _ hjoin] at ho
      obtain rfl : c = c' := by simpa using ho
      cases h.exclusive c _ _ hjoin hclosing
    refine ⟨hfd.trans (congrFun hsd c').symm, fun hphase => ?_⟩
    simpa [hfd, hne] using hfd ▸ hnone hphase

/-- The registrations after an `epoll_ctl`, on the connections: one of them may become
armed, and nothing else changes. -/
theorem armed_of_update {reg : Fd → Option Registration} {fd fd' : Fd} {mask mask' : Events}
    {p : Prop} [Decidable p]
    (h : (if p then Function.update reg fd (some ⟨mask, true⟩) else reg) fd' =
      some ⟨mask', true⟩) : fd' = fd ∧ p ∨ reg fd' = some ⟨mask', true⟩ := by
  by_cases hp : p
  · by_cases hfd : fd' = fd
    · exact .inl ⟨hfd, hp⟩
    · exact .inr (by simpa [hp, hfd] using h)
  · exact .inr (by simpa [hp] using h)

theorem isSome_of_update {reg : Fd → Option Registration} {fd fd' : Fd} {r : Registration}
    {p : Prop} [Decidable p]
    (h : ((if p then Function.update reg fd (some r) else reg) fd').isSome) :
    fd' = fd ∧ p ∨ (reg fd').isSome := by
  by_cases hp : p
  · by_cases hfd : fd' = fd
    · exact .inl ⟨hfd, hp⟩
    · exact .inr (by simpa [hp, hfd] using h)
  · exact .inr (by simpa [hp] using h)

/-- A connection that has moved has been somewhere before. -/
theorem Owns.live_moved (h : Owns cfg s) {c c' : Conn} {k k' k'' : Place} (hheld : s.At c k)
    (hat : c' = c ∧ k' = k'' ∨ s.At c' k' ∧ (c' = c → k' ≠ k)) :
    s.owner (s.sd c') = some (.conn c') := by
  rcases hat with ⟨rfl, -⟩ | ⟨hk, -⟩
  · exact h.live c' _ hheld
  · exact h.live c' k' hk

/-- The descriptor of a connection may be registered. -/
theorem Owns.reg_update (h : Owns cfg s) {c : Conn} {k : Place} (hheld : s.At c k) {fd : Fd}
    {r : Registration} {p : Prop} [Decidable p]
    (hr : ((if p then Function.update s.reg (s.sd c) (some r) else s.reg) fd).isSome) :
    s.owner fd ≠ none := by
  rcases isSome_of_update hr with ⟨rfl, -⟩ | hr
  · exact Option.ne_none_iff_exists'.mpr ⟨_, h.live c _ hheld⟩
  · exact h.reg fd hr

/-- A connection is registered. -/
theorem Owns.register (h : Owns cfg s) {c : Conn} {next : TstStat} {mask : Events} {ok : Bool}
    (hpc : s.main = .register c next) :
    Owns cfg { s.ctlAdd (s.sd c) mask ok with main := .rearmListen } := by
  have hmain := h.main
  rw [hpc] at hmain
  have hjoin : s.At c .joining := by simp [State.At, hpc, MainPc.joins]
  have hat : ∀ c' k, State.At { s.ctlAdd (s.sd c) mask ok with main := .rearmListen } c' k →
      c' = c ∧ k = .armed ∨ s.At c' k ∧ (c' = c → k ≠ .joining) := by
    rintro c' (_ | _ | _ | j | j) hk
    · simp [State.At, MainPc.joins] at hk
    · obtain ⟨fd, m, hr, ho⟩ := hk
      rcases armed_of_update hr with ⟨rfl, -⟩ | hr
      · exact .inl ⟨by simpa [eq_comm] using (h.live c _ hjoin).symm.trans ho, rfl⟩
      · exact .inr ⟨⟨fd, m, hr, ho⟩, by simp⟩
    · obtain ⟨e', he, hsrc⟩ := hk
      exact .inr ⟨⟨e', List.mem_append_right _ he, hsrc⟩, by simp⟩
    · exact .inr ⟨hk, by simp⟩
    · exact .inr ⟨hk, by simp⟩
  refine ⟨h.exclusive.move hjoin .armed hat, h.distinct.sublist (List.sublist_append_right _ _),
    h.owner, fun c' k hk => ?_, h.entry, fun fd hr => ?_,
    fun e he => h.source e (List.mem_append_right _ he), h.listen, hmain,
    fun j => (h.slots j).congr (fun _ hc => hc) rfl fun _ hc => hc⟩
  · exact h.live_moved hjoin (hat c' k hk)
  · exact h.reg_update hjoin hr

/-- `epoll_ctl(EPOLL_CTL_MOD)` on the listening socket or on a socket that is armed. -/
theorem Owns.ctlMod (h : Owns cfg s) {fd : Fd} {mask : Events} {ok : Bool}
    (harmed : ∀ r, s.reg fd = some r → r.armed = true ∨ s.owner fd = some .listen) :
    Owns cfg (s.ctlMod fd mask ok) := by
  refine h.frame ?_ (.refl _) rfl rfl rfl (fun _ _ hc => hc) ?_
    (h.main.congr rfl fun _ hc => hc)
    fun j => (h.slots j).congr (fun _ hc => hc) rfl fun _ hc => hc
  · rintro c (_ | _ | _ | j | j) hk
    · exact hk
    · obtain ⟨fd', m, hr, ho⟩ := hk
      rcases armed_of_update hr with ⟨rfl, hok⟩ | hr
      · obtain ⟨⟨m', b⟩, hr'⟩ := Option.isSome_iff_exists.mp hok.2
        rcases harmed _ hr' with harm | hlisten
        · obtain rfl : b = true := harm
          exact ⟨fd', m', hr', ho⟩
        · have ho : s.owner fd' = some (.conn c) := ho
          simp [hlisten] at ho
      · exact ⟨fd', m, hr, ho⟩
    · exact hk
    · exact hk
    · exact hk
  · intro fd' hr
    rcases isSome_of_update hr with ⟨rfl, hok⟩ | hr
    · exact hok.2
    · exact hr

/-- An event is dispatched to worker `i`. -/
theorem Owns.setSocket (h : Owns cfg s) {d : Dispatch} {sock : TstSocket}
    (hpc : s.main = .setSocket d i) (hsock : sock.sd = s.sd d.conn) :
    Owns cfg { ((s.setSock d.conn sock).setSlot i
        { s.slot i with tstSocket := some d.conn, lock := none }).setHolds i d.conn true with
      main := .loop } := by
  have hsd := setSock_sd hsock
  have hmain := h.main
  rw [hpc] at hmain
  have hfetched : s.fetched = d.ev :: s.batch := by simp [State.fetched, hpc, MainPc.inHand]
  have hqueued : s.At d.conn .queued := ⟨d.ev, by simp [hfetched], hmain⟩
  have hholds : ∀ {j c}, (Function.update s.holds i (Function.update (s.holds i) d.conn true)) j c
      = true → c = d.conn ∧ j = i ∨ s.holds j c = true := by
    intro j c hj
    by_cases hji : j = i
    · subst hji
      by_cases hc : c = d.conn
      · exact .inl ⟨hc, rfl⟩
      · exact .inr (by simpa [hc] using hj)
    · exact .inr (by simpa [hji] using hj)
  have hat : ∀ c k, State.At { ((s.setSock d.conn sock).setSlot i
        { s.slot i with tstSocket := some d.conn, lock := none }).setHolds i d.conn true with
      main := .loop } c k → c = d.conn ∧ k = .held i ∨ s.At c k ∧ (c = d.conn → k ≠ .queued) := by
    rintro c (_ | _ | _ | j | j) hk
    · simp [State.At, MainPc.joins] at hk
    · exact .inr ⟨hk, by simp⟩
    · obtain ⟨e, he, hsrc⟩ := hk
      have he : e ∈ s.batch := he
      refine .inr ⟨⟨e, by simp [hfetched, he], hsrc⟩, fun hc _ => ?_⟩
      have hdistinct := h.distinct
      rw [hfetched, List.pairwise_cons] at hdistinct
      exact hdistinct.1 e he d.conn hmain (hc ▸ hsrc)
    · rcases hholds hk with ⟨rfl, rfl⟩ | hk
      · exact .inl ⟨rfl, rfl⟩
      · exact .inr ⟨hk, by simp⟩
    · obtain ⟨cl, hcl⟩ := hk
      refine .inr ⟨⟨cl, ?_⟩, by simp⟩
      by_cases hj : j = i
      · subst hj
        simpa using hcl
      · simpa [hj] using hcl
  have hkeep : ∀ {j c}, s.holds j c = true →
      (Function.update s.holds i (Function.update (s.holds i) d.conn true)) j c = true := by
    intro j c hj
    by_cases hji : j = i
    · subst hji
      by_cases hc : c = d.conn <;> simp [hc, hj]
    · simpa [hji] using hj
  refine ⟨h.exclusive.move hqueued (.held i) hat, ?_, fun fd c ho => hsd ▸ h.owner fd c ho,
    fun c k hk => ?_, h.entry, h.reg, fun e he => h.source e ?_, h.listen, trivial, ?_⟩
  · exact h.distinct.sublist (List.sublist_append_right _ _)
  · have hlive : s.owner (s.sd c) = some (.conn c) := by
      rcases hat c k hk with ⟨rfl, -⟩ | ⟨hk, -⟩
      · exact h.live _ _ hqueued
      · exact h.live c k hk
    rw [← congrFun hsd c] at hlive
    exact hlive
  · exact List.mem_append_right _ he
  · refine forall_setSlot ⟨fun c hc => hkeep ((h.slots i).working c hc), fun c hc => ?_,
      fun cl c hpc' => ?_⟩ fun j _ => (h.slots j).congr (fun _ hc => hkeep hc) hsd fun _ hc => hc
    · have hc : c = d.conn := by
        revert hc
        simp only [Slot.named]
        split <;> simp [eq_comm]
      subst hc
      simp
    · obtain ⟨hfd, hnone⟩ := (h.slots i).closing cl c hpc'
      exact ⟨hfd.trans (congrFun hsd c).symm, hnone⟩

/-- A call of `closesocket` goes on, short of closing the descriptor. -/
theorem Owns.closeStep (h : Owns cfg s) {cl : Closing} (hphase : cl.phase ≠ .close) :
    Owns cfg (s.closeStep cl).1 := by
  obtain ⟨sd, phase⟩ := cl
  have herase : ∀ fd, s.connect fd = none → Function.update s.connect sd none fd = none := by
    intro fd hnone
    by_cases hfd : fd = sd <;> simp [hfd, hnone]
  cases phase with
  | erase =>
    refine h.frame (fun _ _ hk => hk) (.refl _) rfl rfl rfl (fun fd c hc => ?_)
      (fun _ hr => hr) (h.main.congr rfl herase)
      fun j => (h.slots j).congr (fun _ hc => hc) rfl herase
    by_cases hfd : fd = sd
    · simp [State.closeStep, hfd] at hc
    · simpa [State.closeStep, hfd] using hc
  | del =>
    have hreg : ∀ {fd r}, Function.update s.reg sd none fd = some r → s.reg fd = some r := by
      intro fd r hr
      by_cases hfd : fd = sd
      · simp [hfd] at hr
      · simpa [hfd] using hr
    refine h.frame ?_ (.refl _) rfl rfl rfl (fun _ _ hc => hc) (fun fd hr => ?_)
      (h.main.congr rfl fun _ hc => hc)
      fun j => (h.slots j).congr (fun _ hc => hc) rfl fun _ hc => hc
    · rintro c (_ | _ | _ | j | j) hk
      · exact hk
      · obtain ⟨fd, m, hr, ho⟩ := hk
        exact ⟨fd, m, hreg hr, ho⟩
      · exact hk
      · exact hk
      · exact hk
    · obtain ⟨r, hr⟩ := Option.isSome_iff_exists.mp hr
      exact Option.isSome_iff_exists.mpr ⟨r, hreg hr⟩
  | close => exact absurd rfl hphase

/-- The descriptor of a connection is closed, and with it the place where it was. -/
theorem Owns.closed (h : Owns cfg s) {fd : Fd} {c : Conn} {k : Place} (hk : s.At c k)
    (hfd : s.sd c = fd) (hnone : s.connect fd = none)
    (howner : s'.owner = Function.update s.owner fd none)
    (hreg : s'.reg = Function.update s.reg fd none) (hsd : s'.sd = s.sd)
    (hfresh : s'.fresh = s.fresh) (hconnect : s'.connect = s.connect)
    (hat : ∀ c' k', k' ≠ .armed → s'.At c' k' → s.At c' k') (hgone : ¬ s'.At c k)
    (hfetched : s'.fetched.Sublist s.fetched) (hmain : s'.main.Owns cfg s')
    (hslots : ∀ i, (s'.slot i).Owns s' i) : Owns cfg s' := by
  have hown : s.owner fd = some (.conn c) := hfd ▸ h.live c k hk
  have hold : ∀ {fd' o}, s'.owner fd' = some o → fd' ≠ fd ∧ s.owner fd' = some o := by
    intro fd' o ho
    rw [howner] at ho
    by_cases hne : fd' = fd
    · simp [hne] at ho
    · exact ⟨hne, by simpa [hne] using ho⟩
  have hat' : ∀ c' k', s'.At c' k' → s.At c' k' ∧ c' ≠ c := by
    intro c' k' hk'
    have hold' : s.At c' k' := by
      by_cases harm : k' = .armed
      · subst harm
        obtain ⟨fd', m, hr, ho⟩ := hk'
        obtain ⟨hne, ho⟩ := hold ho
        rw [hreg, Function.update_of_ne hne] at hr
        exact ⟨fd', m, hr, ho⟩
      · exact hat c' k' harm hk'
    refine ⟨hold', ?_⟩
    rintro rfl
    obtain rfl := h.exclusive c' k' k hold' hk
    exact hgone hk'
  have hother : ∀ {c'}, c' ≠ c → s.owner (s.sd c') = some (.conn c') → s.sd c' ≠ fd := by
    intro c' hne ho heq
    rw [heq, hown] at ho
    exact hne (by simpa [eq_comm] using ho)
  refine ⟨h.exclusive.mono fun c' k' hk' => (hat' c' k' hk').1, h.distinct.sublist hfetched,
    fun fd' c' ho => ?_, fun c' k' hk' => ?_, fun fd' c' hc => ?_, fun fd' hr => ?_,
    fun e he => ?_, fun fd' => ?_, hmain, hslots⟩
  · rw [hsd, hfresh]
    exact h.owner fd' c' (hold ho).2
  · obtain ⟨hk', hne⟩ := hat' c' k' hk'
    have ho := h.live c' k' hk'
    rw [howner, hsd, Function.update_of_ne (hother hne ho)]
    exact ho
  · rw [hconnect] at hc
    have hne : fd' ≠ fd := by
      rintro rfl
      simp [hnone] at hc
    rw [howner, Function.update_of_ne hne]
    exact h.entry fd' c' hc
  · by_cases hne : fd' = fd
    · simp [hreg, hne] at hr
    · rw [howner, Function.update_of_ne hne]
      exact h.reg fd' (by simpa [hreg, hne] using hr)
  · have ho := h.source e (hfetched.subset he)
    have hne : e.fd ≠ fd := by
      intro heq
      rw [heq, hown] at ho
      have hq : s'.At c .queued := ⟨e, he, by simpa [eq_comm] using ho⟩
      exact (hat' c _ hq).2 rfl
    rw [howner, Function.update_of_ne hne]
    exact ho
  · by_cases hne : fd' = fd
    · have hnot := (h.listen fd).not.mp (by simp [hown])
      simpa [howner, hne] using hnot
    · rw [howner, Function.update_of_ne hne]
      exact h.listen fd'

/-- Worker `i` gives up a socket: what it holds afterwards. -/
theorem holds_of_release {j : Nat} {c c' : Conn}
    (h : (s.setHolds i c false).holds j c' = true) :
    s.holds j c' = true ∧ (c' = c → j ≠ i) := by
  by_cases hj : j = i
  · subst hj
    by_cases hc : c' = c
    · simp [hc] at h
    · exact ⟨by simpa [hc] using h, fun heq => absurd heq hc⟩
  · exact ⟨by simpa [hj] using h, fun _ => hj⟩

/-- Worker `i` begins to close the socket of its job. -/
theorem Owns.rearmClose (h : Owns cfg s) {c : Conn} {next : TstStat}
    (hpc : (s.slot i).pc = .rearm c next) :
    Owns cfg ((s.setHolds i c false).setSlot i
      { s.slot i with pc := .closing ⟨s.sd c, .erase⟩ c }) := by
  have hheld : s.At c (.held i) := (h.slots i).working c (by simp [hpc, WorkerPc.working])
  have hat : ∀ c' k, State.At ((s.setHolds i c false).setSlot i
      { s.slot i with pc := .closing ⟨s.sd c, .erase⟩ c }) c' k →
      c' = c ∧ k = .closing i ∨ s.At c' k ∧ (c' = c → k ≠ .held i) := by
    rintro c' (_ | _ | _ | j | j) hk
    · exact .inr ⟨hk, by simp⟩
    · exact .inr ⟨hk, by simp⟩
    · exact .inr ⟨hk, by simp⟩
    · obtain ⟨hj, hne⟩ := holds_of_release hk
      exact .inr ⟨hj, fun hc heq => hne hc (by simpa using heq)⟩
    · obtain ⟨cl, hcl⟩ := hk
      by_cases hj : j = i
      · subst hj
        obtain ⟨-, rfl⟩ : ⟨s.sd c, .erase⟩ = cl ∧ c = c' := by simpa using hcl
        exact .inl ⟨rfl, rfl⟩
      · exact .inr ⟨⟨cl, by simpa [hj] using hcl⟩, by simp⟩
  refine ⟨h.exclusive.move hheld (.closing i) hat, h.distinct, h.owner, fun c' k hk => ?_,
    h.entry, h.reg, h.source, h.listen, h.main.congr rfl fun _ hc => hc, ?_⟩
  · exact h.live_moved hheld (hat c' k hk)
  · refine forall_setSlot ⟨?_, ?_, ?_⟩ fun j hj => (h.slots j).congr ?_ rfl fun _ hc => hc
    · simp [WorkerPc.working]
    · simp [Slot.named]
    · intro cl c' hcl
      obtain ⟨rfl, rfl⟩ : ⟨s.sd c, .erase⟩ = cl ∧ c = c' := by simpa using hcl
      exact ⟨rfl, fun hphase => absurd rfl hphase⟩
    · intro c' hc'
      simpa [hj] using hc'

/-- Worker `i` re-arms the socket of its job. -/
theorem Owns.rearm (h : Owns cfg s) {c : Conn} {next next' : TstStat} {mask : Events}
    {ok : Bool} (hpc : (s.slot i).pc = .rearm c next) :
    Owns cfg (((s.ctlMod (s.sd c) mask ok).setHolds i c false).setSlot i
      { s.slot i with pc := .storeNext next' }) := by
  have hheld : s.At c (.held i) := (h.slots i).working c (by simp [hpc, WorkerPc.working])
  have hat : ∀ c' k, State.At (((s.ctlMod (s.sd c) mask ok).setHolds i c false).setSlot i
      { s.slot i with pc := .storeNext next' }) c' k →
      c' = c ∧ k = .armed ∨ s.At c' k ∧ (c' = c → k ≠ .held i) := by
    rintro c' (_ | _ | _ | j | j) hk
    · exact .inr ⟨hk, by simp⟩
    · obtain ⟨fd, m, hr, ho⟩ := hk
      rcases armed_of_update hr with ⟨rfl, -⟩ | hr
      · exact .inl ⟨by simpa [eq_comm] using (h.live c _ hheld).symm.trans ho, rfl⟩
      · exact .inr ⟨⟨fd, m, hr, ho⟩, by simp⟩
    · exact .inr ⟨hk, by simp⟩
    · obtain ⟨hj, hne⟩ := holds_of_release hk
      exact .inr ⟨hj, fun hc heq => hne hc (by simpa using heq)⟩
    · obtain ⟨cl, hcl⟩ := hk
      by_cases hj : j = i
      · simp [hj] at hcl
      · exact .inr ⟨⟨cl, by simpa [hj] using hcl⟩, by simp⟩
  refine ⟨h.exclusive.move hheld .armed hat, h.distinct, h.owner, fun c' k hk => ?_,
    h.entry, fun fd hr => ?_, h.source, h.listen, h.main.congr rfl fun _ hc => hc, ?_⟩
  · exact h.live_moved hheld (hat c' k hk)
  · exact h.reg_update hheld hr
  · refine forall_setSlot ⟨?_, ?_, ?_⟩ fun j hj => (h.slots j).congr ?_ rfl fun _ hc => hc
    · simp [WorkerPc.working]
    · simp [Slot.named]
    · simp
    · intro c' hc'
      simpa [hj, State.ctlMod] using hc'

/-- A step of a call of `closesocket` that `tst_main` makes. -/
theorem Owns.mainClosing (h : Owns cfg s) {cl cl' : Closing} {after : AfterClose} {s₁ : State}
    (hpc : s.main = .closing cl after) (hclose : s.closeStep cl = (s₁, some cl')) :
    Owns cfg { s₁ with main := .closing cl' after } := by
  obtain ⟨rfl, hfd, -, hphase⟩ := closeStep_rest hclose
  have hmain := h.main
  rw [hpc] at hmain
  refine (h.closeStep hphase).mainStep (fun c hc => ?_) ?_ rfl rfl rfl rfl rfl rfl
    (fun j => ⟨rfl, rfl⟩) ?_
  · rw [closeStep_main, hpc]
    cases after <;> exact hc
  · cases after <;> simp [State.fetched, hpc, MainPc.inHand]
  · cases after with
    | add c => exact hmain
    | refused c =>
      obtain ⟨hlisten, hsd, hnone⟩ := hmain
      refine ⟨hlisten, ?_, fun _ => hfd ▸ closeStep_connect hnone⟩
      exact hfd.trans (hsd.trans (congrFun (closeStep_sd s cl) c).symm)
    | event e =>
      obtain ⟨hsd, hclient, hnone⟩ := hmain
      exact ⟨hfd.trans hsd, hclient, fun _ => hfd ▸ closeStep_connect hnone⟩

/-- A call of `closesocket` that `tst_main` makes has returned. -/
theorem Owns.mainClosed (h : Owns cfg s) {cl : Closing} {after : AfterClose} {s₁ : State}
    {pc : MainPc} {b : Bool} (hpc : s.main = .closing cl after)
    (hclose : s.closeStep cl = (s₁, none)) (hjoins : pc.joins = none) (hhand : pc.inHand = [])
    (hmain : ∀ t, pc.Owns cfg t) : Owns cfg { s₁ with main := pc, mainRun := b } := by
  obtain ⟨rfl, hdone⟩ := closeStep_done hclose
  have hold := h.main
  rw [hpc] at hold
  have hsub : (({ (s.closeStep cl).1 with main := pc, mainRun := b } : State).fetched).Sublist
      s.fetched := by
    simp [State.fetched, hhand]
  rcases hdone with hphase | ⟨hphase, -⟩
  · obtain ⟨sd, phase⟩ := cl
    subst hphase
    have hat : ∀ c k, k ≠ .armed → State.At { (s.closeStep ⟨sd, .close⟩).1 with
        main := pc, mainRun := b } c k → s.At c k := by
      rintro c (_ | _ | _ | j | j) hne hk
      · simp [State.At, hjoins] at hk
      · exact absurd rfl hne
      · obtain ⟨e, he, hsrc⟩ := hk
        exact ⟨e, hsub.subset he, hsrc⟩
      · exact hk
      · exact hk
    have hslots : ∀ j, (s.slot j).Owns { (s.closeStep ⟨sd, .close⟩).1 with
        main := pc, mainRun := b } j :=
      fun j => (h.slots j).congr (fun _ hc => hc) rfl fun _ hc => hc
    cases after with
    | add c => exact hold.elim
    | refused c =>
      obtain ⟨-, hsd, hnone⟩ := hold
      have hjoin : s.At c .joining := by simp [State.At, hpc, MainPc.joins]
      exact h.closed hjoin hsd.symm (hnone (by simp)) rfl rfl rfl rfl rfl hat
        (by simp [State.At, hjoins]) hsub (hmain _) hslots
    | event e =>
      obtain ⟨hsd, hclient, hnone⟩ := hold
      have hfetched : s.fetched = e :: s.batch := by simp [State.fetched, hpc, MainPc.inHand]
      have hsource := h.source e (by simp [hfetched])
      cases hsrc : e.src with
      | listen => exact absurd ((h.listen _).mp (hsrc ▸ hsource)) hclient
      | conn c =>
        have hqueued : s.At c .queued := ⟨e, by simp [hfetched], hsrc⟩
        have hc : s.sd c = sd := (h.owner _ c (hsrc ▸ hsource)).1.trans hsd.symm
        refine h.closed hqueued hc (hnone (by simp)) rfl rfl rfl rfl rfl hat ?_ hsub (hmain _) hslots
        rintro ⟨e', he, hsrc'⟩
        have he : e' ∈ s.batch := by simpa [State.fetched, hhand] using he
        have hdistinct := h.distinct
        rw [hfetched, List.pairwise_cons] at hdistinct
        exact hdistinct.1 e' he c hsrc hsrc'
  · refine (h.closeStep (by simp [hphase])).mainStep ?_ ?_ rfl rfl rfl rfl rfl rfl
      (fun j => ⟨rfl, rfl⟩) (hmain _)
    · simp [hjoins]
    · simp [State.fetched, hhand]

/-- A step of a call of `closesocket` that worker `i` makes. -/
theorem Owns.workerClosing (h : Owns cfg s) {cl cl' : Closing} {c : Conn} {s₁ : State}
    (hpc : (s.slot i).pc = .closing cl c) (hclose : s.closeStep cl = (s₁, some cl')) :
    Owns cfg (s₁.setSlot i { s.slot i with pc := .closing cl' c }) := by
  obtain ⟨rfl, hfd, -, hphase⟩ := closeStep_rest hclose
  obtain ⟨hsd, hnone⟩ := (h.slots i).closing cl c hpc
  have h₁ := h.closeStep hphase
  refine h₁.frame ?_ (.refl _) rfl rfl rfl (fun _ _ hc => hc) (fun _ hr => hr)
    (h₁.main.congr rfl fun _ hc => hc) ?_
  · rintro c' (_ | _ | _ | j | j) hk
    · exact hk
    · exact hk
    · exact hk
    · exact hk
    · obtain ⟨cl₁, hcl⟩ := hk
      by_cases hj : j = i
      · subst hj
        obtain ⟨-, rfl⟩ : cl' = cl₁ ∧ c = c' := by simpa using hcl
        exact ⟨cl, by simpa using hpc⟩
      · exact ⟨cl₁, by simpa [hj] using hcl⟩
  · refine forall_setSlot ⟨by simp [WorkerPc.working], by simp [Slot.named], ?_⟩
      fun j _ => (h₁.slots j).congr (fun _ hc => hc) rfl fun _ hc => hc
    intro cl₁ c' hcl
    obtain ⟨rfl, rfl⟩ : cl' = cl₁ ∧ c = c' := by simpa using hcl
    refine ⟨?_, fun _ => hfd ▸ closeStep_connect hnone⟩
    exact hfd.trans (hsd.trans (congrFun (closeStep_sd s cl) c).symm)

theorem Owns.workerClosed (h : Owns cfg s) {cl : Closing} {c : Conn} {s₁ : State}
    (hpc : (s.slot i).pc = .closing cl c) (hclose : s.closeStep cl = (s₁, none)) :
    Owns cfg (s₁.setSlot i { s.slot i with pc := .storeNext .suspend }) := by
  obtain ⟨rfl, hdone⟩ := closeStep_done hclose
  obtain ⟨hsd, hnone⟩ := (h.slots i).closing cl c hpc
  have hslot : ∀ t, Slot.Owns t i { s.slot i with pc := .storeNext .suspend } :=
    fun t => ⟨by simp [WorkerPc.working], by simp [Slot.named], by simp⟩
  have hclosing : ∀ {j c' cl₁},
      (Function.update s.slot i { s.slot i with pc := .storeNext .suspend } j).pc =
        .closing cl₁ c' → (s.slot j).pc = .closing cl₁ c' ∧ j ≠ i := by
    intro j c' cl₁ hcl
    by_cases hj : j = i
    · simp [hj] at hcl
    · exact ⟨by simpa [hj] using hcl, hj⟩
  rcases hdone with hphase | ⟨hphase, -⟩
  · obtain ⟨sd, phase⟩ := cl
    subst hphase
    have hplace : s.At c (.closing i) := ⟨_, hpc⟩
    refine h.closed hplace hsd.symm (hnone (by simp)) rfl rfl rfl rfl rfl ?_ ?_ (.refl _)
      (h.main.congr rfl fun _ hc => hc)
      (forall_setSlot (hslot _) fun j _ => (h.slots j).congr (fun _ hc => hc) rfl fun _ hc => hc)
    · rintro c' (_ | _ | _ | j | j) hne hk
      · exact hk
      · exact absurd rfl hne
      · exact hk
      · exact hk
      · obtain ⟨cl₁, hcl⟩ := hk
        exact ⟨cl₁, (hclosing hcl).1⟩
    · rintro ⟨cl₁, hcl⟩
      exact (hclosing hcl).2 rfl
  · have h₁ : Owns cfg (s.closeStep cl).1 := h.closeStep (by simp [hphase])
    refine h₁.frame ?_ (.refl _) rfl rfl rfl (fun _ _ hc => hc) (fun _ hr => hr)
      (h₁.main.congr rfl fun _ hc => hc)
      (forall_setSlot (hslot _) fun j _ => (h₁.slots j).congr (fun _ hc => hc) rfl fun _ hc => hc)
    rintro c' (_ | _ | _ | j | j) hk
    · exact hk
    · exact hk
    · exact hk
    · exact hk
    · obtain ⟨cl₁, hcl⟩ := hk
      exact ⟨cl₁, by simpa using (hclosing (by simpa using hcl)).1⟩

theorem deliver_owns {evs : List (Fd × Events)} {s₁ : State} (h : Owns cfg s)
    (hpc : s.main = .loop) (hdel : s.deliver cfg evs = some s₁) : Owns cfg s₁ := by
  have hkeep : Owns cfg s₁ ∧ s₁.main = .loop := by
    refine deliver_invariant (P := fun t => Owns cfg t ∧ t.main = .loop) ?_ ⟨h, hpc⟩ hdel
    rintro t ev t' - ⟨ht, htpc⟩ hone
    refine ⟨ht.deliverOne htpc hone, ?_⟩
    obtain ⟨r, src, -, -, -, -, rfl⟩ := deliverOne_eq hone
    exact htpc
  exact hkeep.1

theorem Owns.takeEvent (h : Owns cfg s) (hpc : s.main = .loop) : Owns cfg s.takeEvent := by
  rcases takeEvent_cases s with ⟨-, ht⟩ | ⟨e, rest, hbatch, ht⟩
  · rwa [ht]
  · rw [ht]
    exact h.mainStep (by simp [MainPc.joins]) (by simp [State.fetched, hpc, hbatch, MainPc.inHand])
      rfl rfl rfl rfl rfl rfl (fun j => ⟨rfl, rfl⟩) trivial

theorem mainStep_owns {inp : MainInput} (h : Owns cfg s) (hstep : MainStep cfg s inp s') :
    Owns cfg s' := by
  have hmain := h.main
  cases hstep with
  | epollWait hpc hrun hbatch hdel =>
    obtain ⟨batch, reg, hs₁⟩ := deliver_frame hdel
    exact (deliver_owns h hpc hdel).takeEvent (by rw [hs₁]; exact hpc)
  | accept hpc hfd hlisten hpos hfree howner => exact h.accept hlisten hfree rfl
  | add hpc => exact h.add hpc (by simp [State.sd])
  | register hpc => exact h.register hpc
  | rearmListen hpc =>
    rw [hpc] at hmain
    have howner := (h.listen cfg.sockmain).mpr ⟨rfl, hmain⟩
    exact (h.ctlMod fun _ _ => .inr howner).mainStep (by simp [MainPc.joins])
      (by simp [State.fetched, MainPc.inHand]) rfl rfl rfl rfl rfl rfl (fun j => ⟨rfl, rfl⟩) trivial
  | setSocket hpc => exact h.setSocket hpc (by simp [State.sd])
  | closing hpc hclose => exact h.mainClosing hpc hclose
  | @closed cl after s₁ hpc hclose =>
    rw [hpc] at hmain
    cases after with
    | add c => exact hmain.elim
    | refused c => exact h.mainClosed hpc hclose rfl rfl fun _ => hmain.1
    | event e =>
      simp only [State.afterClose]
      split
      · exact h.mainClosed hpc hclose rfl rfl fun _ => trivial
      · exact h.mainClosed hpc hclose rfl rfl fun _ => trivial
  | @lookup e _ c hpc hmap =>
    have hsource := h.source e (by simp [State.fetched, hpc, MainPc.inHand])
    rw [h.entry _ _ hmap] at hsource
    exact h.mainStep (by simp [MainPc.joins]) (by simp [State.fetched, hpc, MainPc.inHand])
      rfl rfl rfl rfl rfl rfl (fun j => ⟨rfl, rfl⟩) (Option.some.inj hsource).symm
  | remnant hpc hmap =>
    rw [hpc] at hmain
    simp [hmain.2] at hmap
  | @fconnected c next recv send hpc hnext =>
    rw [hpc] at hmain
    exact h.mainStep (by simp [hpc, MainPc.joins]) (by simp [State.fetched, hpc, MainPc.inHand])
      rfl (setSock_sd rfl) rfl rfl rfl rfl (fun j => ⟨rfl, rfl⟩) hmain
  | @refuse c next recv send hpc hnext =>
    rw [hpc] at hmain
    have hsd : (s.setSock c { s.sock c with recv, send }).sd = s.sd := setSock_sd rfl
    exact h.mainStep (by simp [hpc, MainPc.joins]) (by simp [State.fetched, hpc, MainPc.inHand])
      rfl hsd rfl rfl rfl rfl (fun j => ⟨rfl, rfl⟩)
      ⟨hmain, (congrFun hsd c).symm, fun hphase => absurd rfl hphase⟩
  | clientClose hpc =>
    rw [hpc] at hmain
    exact h.mainStep (by simp [MainPc.joins]) (by simp [State.fetched, hpc, MainPc.inHand])
      rfl rfl rfl rfl rfl rfl (fun j => ⟨rfl, rfl⟩) ⟨rfl, hmain, fun hphase => absurd rfl hphase⟩
  | setRun hpc | exitScanFree hpc | exitStore hpc =>
    rw [hpc] at hmain
    exact h.mainStep (by simp [MainPc.joins]) (by simp [State.fetched, hpc, MainPc.inHand])
      rfl rfl rfl rfl rfl rfl
      (forall_setSlot (P := fun j sl => sl.pc = (s.slot j).pc ∧ sl.tstSocket = (s.slot j).tstSocket)
        ⟨rfl, rfl⟩ fun _ _ => ⟨rfl, rfl⟩) hmain
  | _ =>
    rw [‹s.main = _›] at hmain
    exact h.mainStep (by simp [*, MainPc.joins]) (by simp [*, State.fetched, MainPc.inHand])
      rfl rfl rfl rfl rfl rfl (fun j => ⟨rfl, rfl⟩) (by trivial)

theorem Slot.named_eq (sl : Slot) : sl.named = none ∨ sl.named = sl.tstSocket := by
  simp only [Slot.named]
  split
  · exact .inl rfl
  · exact .inl rfl
  · exact .inl rfl
  · exact .inr rfl

/-- A worker outside its jobs goes on. -/
theorem Slot.Owns.walk {sl : Slot} (h : sl.Owns s i) {stat : TstStat} {pc : WorkerPc}
    (hnamed : sl.named = sl.tstSocket) (hworking : pc.working = none)
    (hclosing : ∀ cl c, pc ≠ .closing cl c) :
    ({ sl with stat, pc } : Slot).Owns s i ∧ ∀ cl c, pc ≠ .closing cl c := by
  refine ⟨⟨?_, fun c hc => h.named c ?_, fun cl c hpc => absurd hpc (hclosing cl c)⟩, hclosing⟩
  · simp [hworking]
  · rcases Slot.named_eq { sl with stat, pc } with hnone | heq
    · simp [hnone] at hc
    · rw [hnamed]
      exact heq ▸ hc

/-- The steps of a worker on its own slot. -/
theorem Slot.Step.owns {workRun : Bool} {sl sl' : Slot} {inp : WorkerInput}
    (hstep : Slot.Step workRun sl inp sl') (h : sl.Owns s i) :
    sl'.Owns s i ∧ ∀ cl c, sl'.pc ≠ .closing cl c := by
  cases hstep with
  | @takeSocket c hpc hsocket =>
    have hheld : s.holds i c = true := h.named c (by simp [Slot.named, hpc, hsocket])
    refine ⟨⟨?_, ?_, by simp⟩, by simp⟩
    · simpa [WorkerPc.working] using hheld
    · simpa [Slot.named, hsocket] using hheld
  | @lockEnd c next hpc hlock =>
    have hheld : s.holds i c = true := h.working c (by simp [hpc, WorkerPc.working])
    refine ⟨⟨?_, ?_, by simp⟩, by simp⟩
    · simpa [WorkerPc.working] using hheld
    · simpa [Slot.named, hpc] using h.named
  | storeNext hpc | clearSocket hpc =>
    exact ⟨⟨by simp [WorkerPc.working], by simp [Slot.named], by simp⟩, by simp⟩
  | loop hpc =>
    apply h.walk (by simp [Slot.named, hpc]) <;> cases workRun <;> simp [WorkerPc.working]
  | testWait hpc | testRun hpc | testSuspend hpc | testExit hpc =>
    apply h.walk (by simp [Slot.named, hpc]) <;> split <;> simp [WorkerPc.working]
  | waiting hpc =>
    apply h.walk (by simp [Slot.named, hpc]) <;> split <;> simp [WorkerPc.working]
  | errStore hpc | takeNull hpc | idleMark hpc | idleCall hpc | idleStore hpc | otherStore hpc
  | exitMark hpc | exitStore hpc =>
    apply h.walk (by simp [Slot.named, hpc]) <;> simp [WorkerPc.working]

theorem workerStep_owns {inp : WorkerInput} (h : Owns cfg s) (hstep : WorkerStep s i inp s') :
    Owns cfg s' := by
  cases hstep with
  | own hsl =>
    obtain ⟨hsl', hclosing⟩ := hsl.owns (h.slots i)
    exact h.workerStep rfl hsl' hclosing
  | @job c k hpc =>
    have hheld := (h.slots i).working c (by simp [hpc, WorkerPc.working])
    have hn := (h.slots i).named
    simp only [Slot.named, hpc] at hn
    apply h.workerStep (setSock_sd (by simp [State.sd]))
    · by_cases hnext : ((s.sock c).transfer k).next = .run
      · simp only [hnext, if_true]
        exact ⟨by simpa [WorkerPc.working] using hheld, hn, by simp⟩
      · simp only [hnext, if_false]
        exact ⟨by simpa [WorkerPc.working] using hheld, hn, by simp⟩
    · intro cl c'
      split <;> simp
  | @call c next recv send hpc =>
    have hheld := (h.slots i).working c (by simp [hpc, WorkerPc.working])
    have hn := (h.slots i).named
    simp only [Slot.named, hpc] at hn
    have hsd : (s.setSock c { s.sock c with recv, send }).sd = s.sd := setSock_sd rfl
    exact h.workerStep hsd ⟨by simpa [WorkerPc.working] using hheld, hn, by simp⟩ (by simp)
  | rearmClose hpc => exact h.rearmClose hpc
  | rearm hpc => exact h.rearm hpc
  | rearmSkip hpc =>
    exact h.workerStep rfl ⟨by simp [WorkerPc.working], by simp [Slot.named], by simp⟩ (by simp)
  | closing hpc hclose => exact h.workerClosing hpc hclose
  | closed hpc hclose => exact h.workerClosed hpc hclose

theorem step_owns {a : Action} (h : Owns cfg s) (hok : needSendOk s a = true)
    (hstep : step cfg s a = some s') : Owns cfg s' := by
  revert hstep
  fun_cases step cfg s a <;> intro hstep <;> try cases hstep
  · exact mainStep_owns h (mainStep_cases hstep)
  · exact workerStep_owns h (workerStep_cases hstep)
  · split
    · next hrun =>
      refine h.ctlMod fun r hr => ?_
      simpa [needSendOk, hrun, hr] using hok
    · exact h
  · simp [needSendOk] at hok
  · simp [needSendOk] at hok
  · next fd send c hmap =>
    have hsd : (s.setSock c { s.sock c with send }).sd = s.sd := setSock_sd rfl
    exact h.mainStep (fun _ hc => hc) (.refl _) rfl hsd rfl rfl rfl rfl (fun j => ⟨rfl, rfl⟩)
      (h.main.congr hsd fun _ hc => hc)
  · exact h.mainStep (fun _ hc => hc) (.refl _) rfl rfl rfl rfl rfl rfl (fun j => ⟨rfl, rfl⟩)
      (h.main.congr rfl fun _ hc => hc)

end Invariant

/-- No two workers hold the same socket, and `tst_main` calls `closesocket` on none that a
worker holds, in every run in which `need_send` finds the socket armed. -/
theorem one_worker_per_socket (cfg : Config) (as : List Action) (s : State)
    (h : Exec (step cfg) (fun s a => needSendOk s a = true) (.init cfg) as s) :
    (∀ c i j, s.holds i c = true → s.holds j c = true → i = j) ∧
      ∀ cl after, s.main = .closing cl after → ∀ c i,
        s.connect cl.sd = some c ∨ s.owner cl.sd = some (.conn c) → s.holds i c = false := by
  have hinv : Owns cfg s :=
    h.invariant (fun _ _ _ hok hs hstep => step_owns hs hok hstep) (.init cfg)
  constructor
  · intro c i j hi hj
    simpa using hinv.exclusive c (.held i) (.held j) hi hj
  · intro cl after hpc c i hc
    have hown : s.owner cl.sd = some (.conn c) := by
      rcases hc with hc | hc
      · exact hinv.entry _ c hc
      · exact hc
    have hmain := hinv.main
    rw [hpc] at hmain
    by_contra hheld
    have hheld : s.holds i c = true := by simpa using hheld
    cases after with
    | add c' => exact hmain
    | refused c' =>
      have hjoin : s.At c' .joining := by simp [State.At, hpc, MainPc.joins]
      have hlive := hinv.live c' _ hjoin
      rw [← hmain.2.1, hown] at hlive
      obtain rfl : c = c' := by simpa using hlive
      cases hinv.exclusive c (.held i) _ hheld hjoin
    | event e =>
      have hfetched : e ∈ s.fetched := by simp [State.fetched, hpc, MainPc.inHand]
      have hsource := hinv.source e hfetched
      rw [← hmain.1, hown] at hsource
      have hqueued : s.At c .queued := ⟨e, hfetched, (Option.some.inj hsource).symm⟩
      cases hinv.exclusive c (.held i) _ hheld hqueued

theorem one_worker_per_socket_job :
    ∃ s, Exec (step .server) (fun s a => needSendOk s a = true) (.init .server)
        (acceptRun 5 .suspend ++ [.needSend 5 true] ++ assignRun 5 { epollout := true } ++
          jobRun 0 .suspend) s ∧ s.holds 0 0 = true ∧
      (∀ c i j, s.holds i c = true → s.holds j c = true → i = j) ∧
      ∀ cl after, s.main = .closing cl after → ∀ c i,
        s.connect cl.sd = some c ∨ s.owner cl.sd = some (.conn c) → s.holds i c = false := by
  have hrun : (check (step .server) (fun s a => needSendOk s a = true) (.init .server)
      (acceptRun 5 .suspend ++ [.needSend 5 true] ++ assignRun 5 { epollout := true } ++
        jobRun 0 .suspend)).any (fun s => s.holds 0 0) = true := by decide
  obtain ⟨s, hexec, hheld⟩ := Exec.exists_of_check hrun
  exact ⟨s, hexec, hheld, one_worker_per_socket .server _ s hexec⟩

/-- While worker 0 holds connection 0, another thread calls `need_send` for it. This arms
the socket, and its next event goes to worker 1. -/
theorem need_send_shares_socket :
    ∃ s, run (step .server) (.init .server) (acceptRun 5 .suspend ++
        assignRun 5 { epollin := true } ++ [.needSend 5 true] ++ lookupRun 5 { epollout := true } ++
        [.main .go, .main .go, .main .go, .main .go, .main .go]) = some s ∧
      s.holds 0 0 = true ∧ s.holds 1 0 = true :=
  ⟨_, rfl, rfl, rfl⟩

end Tst.Pool
