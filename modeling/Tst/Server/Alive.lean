import Tst.Http.QueryString
import Tst.Lib.Execution
import Tst.Pool.State
import Tst.WebSocket.Receive

/-!
# Keep-alive messages

`websocket_alive()` lets one WebSocket connection register as the process monitor. It keeps the
number of its descriptor in `g_processmon_sd`, which is never cleared. Whether the number is
still in use it finds out by looking it up in `m_connect`, which lists the connections of all
kinds, and it stores its own number after it has answered. The workers take no lock for this.

## Main definitions

- `aliveMessage` — what `websocket_alive()` makes of a message before the check
- `State.workerStep` — the steps of a worker in the check
- `step` — one step of the connections and the workers
- `Tracked` — `m_connect` and the open descriptors list what is connected and open

## Main results

- `Tracked.of_exec` — this holds in every run
-/

namespace Tst.Monitor

open CString CQueryString Execution
open Pool (Fd Conn)

/-- What `websocket_alive()` writes. -/
inductive AliveReply
  | pong | binary | opcode | empty | unauthorized | invalid | conflict | created
  deriving DecidableEq, Repr

/-- The text of the frame. A ping is answered with a frame without payload. -/
def AliveReply.text : AliveReply → Option String
  | .pong => none
  | .binary => some "opcode binary는 지원하지 않는다"
  | .opcode => some "opcode 지정이 잘못 되었습니다."
  | .empty => some "text의 길이가 0입니다."
  | .unauthorized =>
    some "\x7b\"code\": 401, \"msg\":\"keepalive check error... will be disconnected\"\x7d"
  | .invalid =>
    some "\x7b\"code\": 400, \"msg\":\"keepalive check error... will be disconnected\"\x7d"
  | .conflict => some "\x7b\"code\": 409, \"msg\":\"I have another processmon's connection.\"\x7d"
  | .created => some "\x7b\"code\": 201, \"msg\":\"keepalive check ok.\"\x7d"

/-- What a message comes to before `g_processmon_sd` is looked at. -/
inductive AliveMessage
  | returns (next : TstStat)
  | replies (reply : AliveReply) (next : TstStat)
  | checks
  deriving DecidableEq, Repr

/-- `id[1] != check[4] || id[3] != check[0]`, behind the test of the lengths. -/
def mismatch (id check : List UInt8) : Bool :=
  id.length < 5 || check.length < 5 || id.getD 1 0 ≠ check.getD 4 0 || id.getD 3 0 ≠ check.getD 0 0

/-- The parameters `id` and `check` of the text. -/
def aliveParams (qs : CQueryString) : AliveMessage :=
  let id := qs.get [105, 100]
  let check := qs.get [99, 104, 101, 99, 107]
  if id ≠ [] ∧ check ≠ [] then if mismatch id check then .replies .invalid .disconnect else .checks
  else .replies .unauthorized .disconnect

/-- `websocket_alive()` up to the check. The payload is followed by a null byte, since the buffer
has been cleared. -/
def aliveMessage (d : Delivery) (a : Arrays) : Except Fault AliveMessage :=
  if d.info.isPing then .ok (.replies .pong .suspend)
  else if d.info.isPong then .ok (.returns .suspend)
  else if d.info.isClose then .ok (.returns .disconnect)
  else if d.info.isBin then .ok (.replies .binary .suspend)
  else if !d.info.isText then .ok (.replies .opcode .disconnect)
  else if d.info.dataLen < 1 then .ok (.replies .empty .suspend)
  else do return aliveParams (← CQueryString.new (d.data ++ [0]) (some 0) esAll a)

/-- Where a connection stands, and which worker has it. -/
inductive Life (n : Nat)
  | unborn | accepted
  | connected (worker : Option (Fin n))
  /-- out of `m_connect`, not closed yet -/
  | erased (worker : Option (Fin n))
  | closed
  deriving DecidableEq, Repr

/-- The points of a worker in `websocket_alive()` and in the `closesocket()` behind it, each named
by what it does next: `check`, `compare` and `find` are the three reads of `g_processmon_sd`. -/
inductive AlivePhase
  | idle
  | reply (c : Conn) (reply : AliveReply) (next : TstStat)
  | check (c : Conn) | compare (c : Conn) | find (c : Conn)
  | refuse (c : Conn) | grant (c : Conn) | store (c : Conn)
  | returned (c : Conn) (next : TstStat)
  | close (c : Conn)
  deriving DecidableEq, Repr

/-- The connections and the `n` workers. `registrant` and `answered` are history: the connection
whose number is in `g_processmon_sd`, and those that have been answered code 201. -/
structure State (n : Nat) where
  /-- `g_processmon_sd` -/
  processmonSd : Fd := 0
  /-- `m_connect` -/
  connect : Fd → Option Conn := fun _ => none
  /-- the open descriptors -/
  owner : Fd → Option Conn := fun _ => none
  /-- the descriptor of a connection -/
  sd : Conn → Fd := fun _ => 0
  life : Conn → Life n := fun _ => .unborn
  /-- upgraded to a WebSocket connection of `/alive` -/
  websocket : Conn → Bool := fun _ => false
  /-- the number of the next connection -/
  fresh : Conn := 0
  phase : Fin n → AlivePhase := fun _ => .idle
  registrant : Option Conn := none
  answered : Conn → Bool := fun _ => false

/-- `accept()` or `socket()` with the descriptor `fd`, `addsocket()`, the upgrade, and
`closesocket()` by a thread other than the workers, which erases and closes; a message for
`websocket_alive()`, and a step of a worker that is at work on one. -/
inductive Action (n : Nat)
  | accept (fd : Fd)
  | add (c : Conn)
  | upgrade (c : Conn)
  | erase (c : Conn)
  | close (c : Conn)
  | receive (w : Fin n) (c : Conn) (d : Delivery) (a : Arrays)
  | go (w : Fin n)

variable {n : Nat}

def Action.worker : Action n → Option (Fin n)
  | .go w => some w
  | _ => none

/-- Where a worker goes on after the message has been read. -/
def AliveMessage.phase (c : Conn) : AliveMessage → AlivePhase
  | .returns next => .returned c next
  | .replies reply next => .reply c reply next
  | .checks => .check c

namespace State

def setPhase (s : State n) (w : Fin n) (p : AlivePhase) : State n :=
  { s with phase := Function.update s.phase w p }

def setLife (s : State n) (c : Conn) (l : Life n) : State n :=
  { s with life := Function.update s.life c l }

/-- `m_connect.erase(it)`. -/
def erase (s : State n) (c : Conn) (worker : Option (Fin n)) : State n :=
  { s.setLife c (.erased worker) with connect := Function.update s.connect (s.sd c) none }

/-- `close(sd)`. -/
def close (s : State n) (c : Conn) : State n :=
  { s.setLife c .closed with owner := Function.update s.owner (s.sd c) none }

/-- A step of a worker: of `websocket_alive()`, or of `closesocket()` when that has answered
`tst_disconnect`. -/
def workerStep (s : State n) (w : Fin n) : Option (State n) :=
  match s.phase w with
  | .idle => none
  | .reply c _ next => some (s.setPhase w (.returned c next))
  | .check c => some (s.setPhase w (if s.processmonSd = 0 then .grant c else .compare c))
  | .compare c => some (s.setPhase w (if s.processmonSd = s.sd c then .grant c else .find c))
  | .find c =>
    some (s.setPhase w (if (s.connect s.processmonSd).isSome then .refuse c else .grant c))
  | .refuse c => some (s.setPhase w (.returned c .disconnect))
  | .grant c =>
    some { s.setPhase w (.store c) with answered := Function.update s.answered c true }
  | .store c =>
    some { s.setPhase w (.returned c .suspend) with
      processmonSd := s.sd c
      registrant := some c }
  | .returned c next =>
    if next = .disconnect then some ((s.erase c (some w)).setPhase w (.close c))
    else some ((s.setLife c (.connected none)).setPhase w .idle)
  | .close c => some ((s.close c).setPhase w .idle)

end State

/-- One step. A connection is handled by one worker at a time, and nobody else removes it in the
meantime: its registration with epoll is disarmed. -/
def step (s : State n) : Action n → Option (State n)
  | .accept fd =>
    if 0 < fd ∧ s.owner fd = none then
      some { s.setLife s.fresh .accepted with
        owner := Function.update s.owner fd (some s.fresh)
        sd := Function.update s.sd s.fresh fd
        fresh := s.fresh + 1 }
    else none
  | .add c =>
    if s.life c = .accepted then
      some { s.setLife c (.connected none) with
        connect := Function.update s.connect (s.sd c) (some c) }
    else none
  | .upgrade c =>
    if s.life c = .connected none then
      some { s with websocket := Function.update s.websocket c true }
    else none
  | .erase c => if s.life c = .connected none then some (s.erase c none) else none
  | .close c => if s.life c = .erased none then some (s.close c) else none
  | .receive w c d a =>
    if s.phase w = .idle ∧ s.life c = .connected none ∧ s.websocket c then
      match aliveMessage d a with
      -- the process ends
      | .error _ => none
      | .ok m => some ((s.setLife c (.connected (some w))).setPhase w (m.phase c))
    else none
  | .go w => s.workerStep w

-- ════════════════════════════════════════════════════════════════════════
-- The connections
-- ════════════════════════════════════════════════════════════════════════

/-- The descriptor is open. -/
def Life.isOpen : Life n → Bool
  | .accepted | .connected _ | .erased _ => true
  | _ => false

/-- The connection stands in `m_connect`. -/
def Life.listed : Life n → Bool
  | .connected _ => true
  | _ => false

/-- The connection that a worker handles. -/
def AlivePhase.handles : AlivePhase → Option Conn
  | .idle | .close _ => none
  | .reply c _ _ | .check c | .compare c | .find c | .refuse c | .grant c | .store c
  | .returned c _ => some c

namespace State

def Connected (s : State n) (c : Conn) : Prop := s.connect (s.sd c) = some c

instance (s : State n) (c : Conn) : Decidable (s.Connected c) :=
  inferInstanceAs (Decidable (_ = _))

end State

/-- `m_connect` and the open descriptors list what is connected and open, and a worker has the
connection that it handles. -/
structure Tracked (s : State n) : Prop where
  owner : ∀ fd c, s.owner fd = some c ↔ s.sd c = fd ∧ (s.life c).isOpen = true
  connect : ∀ fd c, s.connect fd = some c ↔ s.sd c = fd ∧ (s.life c).listed = true
  unborn : ∀ c, s.fresh ≤ c → s.life c = .unborn
  positive : ∀ c, (s.life c).isOpen = true → 0 < s.sd c
  handled : ∀ w c, (s.phase w).handles = some c → s.life c = .connected (some w)
  closing : ∀ w c, s.phase w = .close c → s.life c = .erased (some w)

section Tracked

variable {s s' : State n} {a : Action n}

theorem Tracked.isOpen_of_listed {c : Conn} (h : (s.life c).listed = true) :
    (s.life c).isOpen = true := by
  revert h
  cases s.life c <;> simp [Life.listed, Life.isOpen]

/-- No two open connections have one number. -/
theorem Tracked.unique (h : Tracked s) {c c' : Conn} (hc : (s.life c).isOpen = true)
    (hc' : (s.life c').isOpen = true) (hsd : s.sd c' = s.sd c) : c' = c := by
  have howner : s.owner (s.sd c) = some c := (h.owner _ c).mpr ⟨rfl, hc⟩
  have howner' : s.owner (s.sd c) = some c' := (h.owner _ c').mpr ⟨hsd, hc'⟩
  exact Option.some.inj (howner'.symm.trans howner)

theorem Tracked.connected_iff (h : Tracked s) {c : Conn} :
    s.Connected c ↔ (s.life c).listed = true :=
  (h.connect _ c).trans (and_iff_right rfl)

theorem Tracked.born (h : Tracked s) {c : Conn} (hopen : (s.life c).isOpen = true) :
    c < s.fresh := by
  by_contra hc
  rw [h.unborn c (Nat.le_of_not_lt hc)] at hopen
  cases hopen

section Update

variable {m : Fd → Option Conn} {p : Life n → Bool} {c : Conn} {v : Option Conn}

theorem update_sd_self (hm : ∀ fd c, m fd = some c ↔ s.sd c = fd ∧ p (s.life c) = true) {fd : Fd} :
    Function.update m (s.sd c) v fd = some c ↔ s.sd c = fd ∧ v = some c := by
  by_cases hfd : fd = s.sd c
  · subst hfd
    rw [Function.update_self]
    exact (and_iff_right rfl).symm
  · rw [Function.update_of_ne hfd]
    constructor
    · intro h
      exact absurd ((hm fd c).mp h).1.symm hfd
    · intro h
      exact absurd h.1.symm hfd

/-- Under the number of an open connection nothing is changed for the others. -/
theorem update_sd_iff (hm : ∀ fd c, m fd = some c ↔ s.sd c = fd ∧ p (s.life c) = true)
    (hunique : ∀ c', p (s.life c') = true → s.sd c' = s.sd c → c' = c)
    (hv : ∀ c' ∈ v, c' = c) {fd : Fd} {c' : Conn} (hne : c' ≠ c) :
    Function.update m (s.sd c) v fd = some c' ↔ m fd = some c' := by
  by_cases hfd : fd = s.sd c
  · subst hfd
    rw [Function.update_self]
    constructor
    · intro h
      exact absurd (hv c' h) hne
    · intro h
      obtain ⟨hsd, hp⟩ := (hm _ c').mp h
      exact absurd (hunique c' hp hsd) hne
  · rw [Function.update_of_ne hfd]

end Update

/-- No worker is at work on the connection. -/
def State.Free (s : State n) (c : Conn) : Prop :=
  ∀ w, (s.phase w).handles ≠ some c ∧ s.phase w ≠ .close c

theorem Tracked.free (h : Tracked s) {c : Conn} (hlife : ∀ w, s.life c ≠ .connected (some w))
    (hlife' : ∀ w, s.life c ≠ .erased (some w)) : s.Free c := by
  intro w
  constructor
  · intro hw
    exact hlife w (h.handled w c hw)
  · intro hw
    exact hlife' w (h.closing w c hw)

/-- An open connection that nobody is at work on comes to another stage. -/
theorem Tracked.relive (h : Tracked s) {c : Conn} {l : Life n} {o m : Fd → Option Conn}
    (hfree : s.Free c) (hopen : (s.life c).isOpen = true)
    (howner : ∀ fd, o fd = some c ↔ s.sd c = fd ∧ l.isOpen = true)
    (hconnect : ∀ fd, m fd = some c ↔ s.sd c = fd ∧ l.listed = true)
    (howner' : ∀ fd c', c' ≠ c → (o fd = some c' ↔ s.owner fd = some c'))
    (hconnect' : ∀ fd c', c' ≠ c → (m fd = some c' ↔ s.connect fd = some c')) :
    Tracked { s.setLife c l with owner := o, connect := m } := by
  have hborn := h.born hopen
  have hself : Function.update s.life c l c = l := Function.update_self ..
  have hother : ∀ c', c' ≠ c → Function.update s.life c l c' = s.life c' := fun c' hne =>
    Function.update_of_ne hne ..
  constructor
  · intro fd c'
    by_cases hc : c' = c
    · subst hc
      simpa only [State.setLife, hself] using howner fd
    · simpa only [State.setLife, hother c' hc] using (howner' fd c' hc).trans (h.owner fd c')
  · intro fd c'
    by_cases hc : c' = c
    · subst hc
      simpa only [State.setLife, hself] using hconnect fd
    · simpa only [State.setLife, hother c' hc] using (hconnect' fd c' hc).trans (h.connect fd c')
  · intro c' hc'
    have hne : c' ≠ c := fun hc => Nat.not_le.mpr hborn (hc ▸ hc')
    simpa only [State.setLife, hother c' hne] using h.unborn c' hc'
  · intro c' hc'
    by_cases hc : c' = c
    · subst hc
      exact h.positive c' hopen
    · exact h.positive c' (by simpa only [State.setLife, hother c' hc] using hc')
  · intro w c' hw
    have hne : c' ≠ c := fun hc => (hfree w).1 (hc ▸ hw)
    simpa only [State.setLife, hother c' hne] using h.handled w c' hw
  · intro w c' hw
    have hne : c' ≠ c := fun hc => (hfree w).2 (hc ▸ hw)
    simpa only [State.setLife, hother c' hne] using h.closing w c' hw

/-- The phases after one worker has made a step. -/
theorem forall_setPhase {P : Fin n → AlivePhase → Prop} {w : Fin n} {p : AlivePhase} (hw : P w p)
    (hrest : ∀ w', w' ≠ w → P w' (s.phase w')) : ∀ w', P w' ((s.setPhase w p).phase w') :=
  (Function.forall_update_iff s.phase P).mpr ⟨hw, hrest⟩

theorem Tracked.setPhase (h : Tracked s) {w : Fin n} {p : AlivePhase}
    (hhandled : ∀ c, p.handles = some c → s.life c = .connected (some w))
    (hclosing : ∀ c, p = .close c → s.life c = .erased (some w)) : Tracked (s.setPhase w p) := by
  refine { h with handled := ?_, closing := ?_ }
  · exact forall_setPhase (P := fun w p => ∀ c, p.handles = some c → s.life c = .connected (some w))
      hhandled fun w' _ => h.handled w'
  · exact forall_setPhase (P := fun w p => ∀ c, p = .close c → s.life c = .erased (some w))
      hclosing fun w' _ => h.closing w'

/-- A connection in `m_connect` changes hands. -/
theorem Tracked.relist (h : Tracked s) {c : Conn} {w : Option (Fin n)} (hfree : s.Free c)
    (hlisted : (s.life c).listed = true) : Tracked (s.setLife c (.connected w)) := by
  have hopen := Tracked.isOpen_of_listed hlisted
  refine h.relive hfree hopen (fun fd => ?_) (fun fd => ?_) (fun _ _ _ => .rfl) fun _ _ _ => .rfl
  · exact (h.owner fd c).trans (by rw [hopen]; rfl)
  · exact (h.connect fd c).trans (by rw [hlisted]; rfl)

theorem Tracked.add (h : Tracked s) {c : Conn} (hfree : s.Free c)
    (hopen : (s.life c).isOpen = true) :
    Tracked { s.setLife c (.connected none) with
      connect := Function.update s.connect (s.sd c) (some c) } := by
  refine h.relive hfree hopen (fun fd => ?_) (fun fd => ?_) (fun _ _ _ => .rfl)
    fun fd c' hne => update_sd_iff h.connect (fun c' hc' => ?_) (by simp) hne
  · exact (h.owner fd c).trans (by rw [hopen]; rfl)
  · exact (update_sd_self h.connect).trans (by simp [Life.listed])
  · exact h.unique hopen (Tracked.isOpen_of_listed hc')

theorem Tracked.erase (h : Tracked s) {c : Conn} {w : Option (Fin n)} (hfree : s.Free c)
    (hopen : (s.life c).isOpen = true) : Tracked (s.erase c w) := by
  refine h.relive hfree hopen (fun fd => ?_) (fun fd => ?_) (fun _ _ _ => .rfl)
    fun fd c' hne => update_sd_iff h.connect (fun c' hc' => ?_) (by simp) hne
  · exact (h.owner fd c).trans (by rw [hopen]; rfl)
  · exact (update_sd_self h.connect).trans (by simp [Life.listed])
  · exact h.unique hopen (Tracked.isOpen_of_listed hc')

theorem Tracked.close (h : Tracked s) {c : Conn} (hfree : s.Free c)
    (hopen : (s.life c).isOpen = true) (hlisted : (s.life c).listed = false) :
    Tracked (s.close c) := by
  refine h.relive hfree hopen (fun fd => ?_) (fun fd => ?_)
    (fun fd c' hne => update_sd_iff h.owner (fun c' hc' => ?_) (by simp) hne) fun _ _ _ => .rfl
  · exact (update_sd_self h.owner).trans (by simp [Life.isOpen])
  · exact (h.connect fd c).trans (by rw [hlisted]; rfl)
  · exact h.unique hopen hc'

theorem Tracked.accept (h : Tracked s) {fd : Fd} (hpos : 0 < fd) (hfree : s.owner fd = none) :
    Tracked { s.setLife s.fresh .accepted with
      owner := Function.update s.owner fd (some s.fresh)
      sd := Function.update s.sd s.fresh fd
      fresh := s.fresh + 1 } := by
  have hunborn : s.life s.fresh = .unborn := h.unborn _ le_rfl
  have hold : ∀ c, s.life c ≠ .unborn → c ≠ s.fresh := fun c hc hfresh => hc (hfresh ▸ hunborn)
  obtain ⟨howner, hconnect, hborn, hsd, hhandled, hclosing⟩ := h
  simp only [State.setLife]
  constructor <;> grind [Function.update_apply, Life.isOpen, Life.listed]

/-- The worker that has the connection lets go of it. -/
theorem Tracked.letGo (h : Tracked s) {w : Fin n} {c : Conn}
    (hlife : s.life c = .connected (some w) ∨ s.life c = .erased (some w)) :
    Tracked (s.setPhase w .idle) ∧ (s.setPhase w .idle).Free c := by
  have hidle : Tracked (s.setPhase w .idle) :=
    h.setPhase (by simp [AlivePhase.handles]) (by simp)
  refine ⟨hidle, fun w' => ?_⟩
  by_cases hw : w' = w
  · subst hw
    simp [State.setPhase, AlivePhase.handles]
  · have hphase : (s.setPhase w .idle).phase w' = s.phase w' := Function.update_of_ne hw ..
    rw [hphase]
    constructor
    · intro hc
      rw [h.handled w' c hc] at hlife
      obtain hlife | hlife := hlife
      · exact hw (Option.some.inj (Life.connected.inj hlife))
      · cases hlife
    · intro hc
      rw [h.closing w' c hc] at hlife
      obtain hlife | hlife := hlife
      · cases hlife
      · exact hw (Option.some.inj (Life.erased.inj hlife))

/-- The worker stays at work on its connection. -/
theorem Tracked.goOn (h : Tracked s) {w : Fin n} {p : AlivePhase}
    (hsame : p.handles = (s.phase w).handles) (hclose : ∀ c, p ≠ .close c) :
    Tracked (s.setPhase w p) :=
  h.setPhase (fun c hc => h.handled w c (hsame ▸ hc)) fun c hc => absurd hc (hclose c)

theorem Tracked.workerStep (h : Tracked s) {w : Fin n} (hstep : s.workerStep w = some s') :
    Tracked s' := by
  have hhandled := h.handled w
  have hclosing := h.closing w
  rw [State.workerStep] at hstep
  cases hphase : s.phase w with
  | idle => simp [hphase] at hstep
  | reply c reply next =>
    simp only [hphase, Option.some.injEq] at hstep
    subst hstep
    exact h.goOn (by rw [hphase]; rfl) (by simp)
  | check c =>
    simp only [hphase, Option.some.injEq] at hstep
    subst hstep
    exact h.goOn (by rw [hphase]; split <;> rfl) fun c => by split <;> simp
  | compare c =>
    simp only [hphase, Option.some.injEq] at hstep
    subst hstep
    exact h.goOn (by rw [hphase]; split <;> rfl) fun c => by split <;> simp
  | find c =>
    simp only [hphase, Option.some.injEq] at hstep
    subst hstep
    exact h.goOn (by rw [hphase]; split <;> rfl) fun c => by split <;> simp
  | refuse c =>
    simp only [hphase, Option.some.injEq] at hstep
    subst hstep
    exact h.goOn (by rw [hphase]; rfl) (by simp)
  | grant c =>
    simp only [hphase, Option.some.injEq] at hstep
    subst hstep
    obtain ⟨h1, h2, h3, h4, h5, h6⟩ := h.goOn (p := .store c) (by rw [hphase]; rfl) (by simp)
    exact ⟨h1, h2, h3, h4, h5, h6⟩
  | store c =>
    simp only [hphase, Option.some.injEq] at hstep
    subst hstep
    obtain ⟨h1, h2, h3, h4, h5, h6⟩ :=
      h.goOn (p := .returned c .suspend) (by rw [hphase]; rfl) (by simp)
    exact ⟨h1, h2, h3, h4, h5, h6⟩
  | returned c next =>
    have hlife : s.life c = .connected (some w) := hhandled c (by rw [hphase]; rfl)
    obtain ⟨hidle, hfree⟩ := h.letGo (.inl hlife)
    simp only [hphase] at hstep
    split at hstep
    · obtain rfl := Option.some.inj hstep
      have herased : Tracked ((s.setPhase w .idle).erase c (some w)) :=
        hidle.erase hfree (by simp [State.setPhase, hlife, Life.isOpen])
      have hclose := herased.setPhase (w := w) (p := .close c) (by simp [AlivePhase.handles])
        (fun c' hc' => by
          obtain rfl := AlivePhase.close.inj hc'
          exact Function.update_self ..)
      simpa [State.erase, State.setPhase, State.setLife] using hclose
    · obtain rfl := Option.some.inj hstep
      have hlisted : Tracked ((s.setPhase w .idle).setLife c (.connected none)) :=
        hidle.relist hfree (by simp [State.setPhase, hlife, Life.listed])
      simpa [State.setPhase, State.setLife] using hlisted
  | close c =>
    have hlife : s.life c = .erased (some w) := hclosing c hphase
    obtain ⟨hidle, hfree⟩ := h.letGo (.inr hlife)
    simp only [hphase, Option.some.injEq] at hstep
    subst hstep
    have hclosed : Tracked ((s.setPhase w .idle).close c) :=
      hidle.close hfree (by simp [State.setPhase, hlife, Life.isOpen])
        (by simp [State.setPhase, hlife, Life.listed])
    simpa [State.close, State.setPhase, State.setLife] using hclosed

theorem Tracked.step (h : Tracked s) (hstep : step s a = some s') : Tracked s' := by
  cases a with
  | accept fd =>
    obtain ⟨⟨hpos, hfree⟩, rfl⟩ : _ ∧ _ = s' := by simpa [Monitor.step] using hstep
    exact h.accept hpos hfree
  | add c =>
    obtain ⟨hlife, rfl⟩ : _ ∧ _ = s' := by simpa [Monitor.step] using hstep
    exact h.add (h.free (by simp [hlife]) (by simp [hlife])) (by simp [hlife, Life.isOpen])
  | upgrade c =>
    obtain ⟨hlife, rfl⟩ : _ ∧ _ = s' := by simpa [Monitor.step] using hstep
    exact ⟨h.owner, h.connect, h.unborn, h.positive, h.handled, h.closing⟩
  | erase c =>
    obtain ⟨hlife, rfl⟩ : _ ∧ _ = s' := by simpa [Monitor.step] using hstep
    exact h.erase (h.free (by simp [hlife]) (by simp [hlife])) (by simp [hlife, Life.isOpen])
  | close c =>
    obtain ⟨hlife, rfl⟩ : _ ∧ _ = s' := by simpa [Monitor.step] using hstep
    exact h.close (h.free (by simp [hlife]) (by simp [hlife])) (by simp [hlife, Life.isOpen])
      (by simp [hlife, Life.listed])
  | receive w c d a =>
    simp only [Monitor.step, Option.ite_none_right_eq_some] at hstep
    obtain ⟨⟨hidle, hlife, -⟩, hstep⟩ := hstep
    cases hm : aliveMessage d a with
    | error f => simp [hm] at hstep
    | ok m =>
      simp only [hm, Option.some.injEq] at hstep
      subst hstep
      have hlisted : Tracked (s.setLife c (.connected (some w))) :=
        h.relist (h.free (by simp [hlife]) (by simp [hlife])) (by simp [hlife, Life.listed])
      refine hlisted.setPhase (fun c' hc' => ?_) fun c' hc' => ?_
      · obtain rfl : c = c' := by cases m <;> exact Option.some.inj hc'
        exact Function.update_self ..
      · cases m <;> cases hc'
  | go w => exact h.workerStep hstep

theorem Tracked.init : Tracked ({} : State n) := by
  constructor <;> simp [Life.isOpen, Life.listed, AlivePhase.handles]

theorem Tracked.of_exec {ok : State n → Action n → Prop} {as : List (Action n)}
    (h : Exec Monitor.step ok {} as s) : Tracked s :=
  h.invariant (fun _ _ _ _ ht hstep => ht.step hstep) .init

end Tracked

end Tst.Monitor
