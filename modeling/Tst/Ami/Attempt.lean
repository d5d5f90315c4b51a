import Mathlib.Data.Finset.Card
import Tst.Ami.Login
import Tst.Server.Connection

/-!
# An attempt to log in

`amiLogin()` from its call to its return: it makes a `TST_SOCKET`, connects, waits five seconds
for the greeting, and runs the loop of the login. Each of its ways to give up deletes
`ami_socket`, and none of them closes the descriptor. The main thread calls it again every three
seconds while there is no connection.

## Main definitions

- `LoginState` — what the call works on
- `tcpConnect`, `amiLogin` — the functions
- `LoginState.retry` — a call by the main thread that gives up

## Main results

- `gave_up_iff` — a call that gives up leaves the state as it was exactly when it has obtained no
  descriptor
- `retries_leak` — the descriptors that stay open after any number of calls
-/

namespace Tst

open CString

/-- `ami_socket`, the open descriptors, `m_connect`, and what is registered with epoll. -/
structure LoginState where
  amiSocket : Option HttpSocket := none
  opened : Finset Nat
  connect : Nat → Option HttpSocket := fun _ => none
  epoll : Finset Nat := ∅

/-- What the system answers to `tcp_connect()`: whether the host has an address, the descriptor
that `socket()` returns, and whether `connect()` and `fcntl()` succeed. -/
structure Dial where
  address : Bool
  socket : Option Nat
  connect : Bool
  nonBlock : Bool

/-- The result of `select()`. -/
inductive Selected
  | ready | timeout | error
  deriving DecidableEq

/-- What one round of the loop meets. -/
structure LoginInput where
  bytes : List UInt8
  wrote : Bool
  junk : LocalEvents

/-- What a call of `amiLogin()` meets. -/
structure LoginCall where
  dial : Dial
  select : Selected
  inputs : List LoginInput

/-- Where the call stands: it has returned before or behind `addsocket()`, it has faulted, or it
is in the loop. -/
inductive LoginExit
  | present | unconnected | noGreeting | selectError | refused
  | added
  | fault (f : Fault)
  | running
  deriving DecidableEq

/-- The call has returned without having reached `addsocket()`. -/
def LoginExit.gaveUp : LoginExit → Bool
  | .present | .unconnected | .noGreeting | .selectError | .refused => true
  | _ => false

/-- `tcp_connect()`: what it returns, and the open descriptors. -/
def tcpConnect (opened : Finset Nat) (d : Dial) : Int × Finset Nat :=
  if !d.address then (-1, opened)
  else
    match d.socket with
    | none => (-2, opened)
    | some fd =>
      let opened := insert fd opened
      if !d.connect then (-3, opened.erase fd)
      else if !d.nonBlock then (-7, opened.erase fd)
      else (fd, opened)

/-- The loop of the login. -/
def LoginConn.loop : LoginConn → List LoginInput → LoginConn × Option LoginEnd
  | login, [] => (login, none)
  | login, r :: rs =>
    match login.iterate r.bytes r.wrote r.junk with
    | (login, some e) => (login, some e)
    | (login, none) => login.loop rs

namespace LoginState

/-- `delete ami_socket; ami_socket = NULL`. -/
def deleteSocket (st : LoginState) : LoginState := { st with amiSocket := none }

/-- `server.addsocket(ami_socket)`, and the registration with epoll. -/
def addSocket (st : LoginState) (sock : HttpSocket) : LoginState where
  amiSocket := some sock
  opened := st.opened
  connect := Function.update st.connect sock.sd (some sock)
  epoll := insert sock.sd st.epoll

end LoginState

/-- `amiLogin()`. -/
def amiLogin (st : LoginState) (c : LoginCall) : LoginState × LoginExit :=
  if st.amiSocket.isSome then (st, .present)
  else
    let (sd, opened) := tcpConnect st.opened c.dial
    let st := { st with amiSocket := some (.accepted 0 4096), opened }
    if sd < 1 then (st.deleteSocket, .unconnected)
    else
      match c.select with
      | .timeout => (st.deleteSocket, .noGreeting)
      | .error => (st.deleteSocket, .selectError)
      | .ready =>
        let r := LoginConn.loop {} c.inputs
        let sock := { HttpSocket.loggedIn sd.toNat 4096 with recv := r.1.recv }
        match r.2 with
        | some .connected => (st.addSocket sock, .added)
        -- the retries are over, the banner is wrong, the action is not written, the message has
        -- no lines, or the response is negative
        | some .failed => (st.deleteSocket, .refused)
        | some (.fault f) => ({ st with amiSocket := some sock }, .fault f)
        | none => ({ st with amiSocket := some sock }, .running)

namespace Dial

/-- `socket()` returns a descriptor that is not open. -/
def Fresh (d : Dial) (opened : Finset Nat) : Prop := ∀ fd ∈ d.socket, fd ∉ opened

instance (d : Dial) (opened : Finset Nat) : Decidable (d.Fresh opened) :=
  inferInstanceAs (Decidable (∀ fd ∈ d.socket, fd ∉ opened))

/-- The descriptor that is obtained, if there is an address for the host and no system call
fails. -/
def obtained (d : Dial) : Option Nat :=
  if d.address && d.connect && d.nonBlock then d.socket else none

end Dial

-- ════════════════════════════════════════════════════════════════════════
-- One call
-- ════════════════════════════════════════════════════════════════════════

section Call

variable {st : LoginState} {c : LoginCall} {d : Dial} {opened : Finset Nat}

/-- A descriptor that `tcp_connect()` does not return it has closed. -/
theorem tcpConnect_opened (hfresh : d.Fresh opened) :
    (tcpConnect opened d).2 = d.obtained.elim opened (insert · opened) := by
  obtain ⟨address, socket, connect, nonBlock⟩ := d
  cases socket with
  | none => cases address <;> simp [tcpConnect, Dial.obtained]
  | some fd =>
    have herase : (insert fd opened).erase fd = opened :=
      Finset.erase_insert (hfresh fd rfl)
    cases address <;> cases connect <;> cases nonBlock <;>
      simp [tcpConnect, Dial.obtained, herase]

/-- Whatever makes the call give up, all that it leaves is what `tcp_connect()` has left. -/
theorem amiLogin_gaveUp (hnull : st.amiSocket = none) (h : (amiLogin st c).2.gaveUp = true) :
    (amiLogin st c).1 = { st with opened := (tcpConnect st.opened c.dial).2 } := by
  have hnone : ¬ st.amiSocket.isSome = true := by simp [hnull]
  have hdelete : ∀ opened : Finset Nat,
      { st with amiSocket := some (HttpSocket.accepted 0 4096), opened }.deleteSocket =
        { st with opened } := by
    intro opened
    rw [LoginState.deleteSocket, ← hnull]
  rw [amiLogin, if_neg hnone] at h ⊢
  dsimp only at h ⊢
  split at h
  · next hsd => rw [if_pos hsd, hdelete]
  · next hsd =>
    rw [if_neg hsd]
    cases hselect : c.select with
    | timeout => exact hdelete _
    | error => exact hdelete _
    | ready =>
      rw [hselect] at h
      dsimp only at h ⊢
      cases hend : (LoginConn.loop {} c.inputs).2 with
      | none => rw [hend] at h; exact absurd h Bool.false_ne_true
      | some e =>
        rw [hend] at h
        cases e with
        | connected => exact absurd h Bool.false_ne_true
        | failed => exact hdelete _
        | fault f => exact absurd h Bool.false_ne_true

/-- Where there is a connection the call returns at once. -/
theorem amiLogin_present (h : st.amiSocket.isSome = true) : amiLogin st c = (st, .present) :=
  if_pos h

/-- What a call that gives up leaves open. -/
theorem amiLogin_opened (hnull : st.amiSocket = none) (hfresh : c.dial.Fresh st.opened)
    (h : (amiLogin st c).2.gaveUp = true) :
    (amiLogin st c).1 =
      { st with opened := c.dial.obtained.elim st.opened (insert · st.opened) } := by
  rw [amiLogin_gaveUp hnull h, tcpConnect_opened hfresh]

theorem obtained_fresh (hfresh : d.Fresh opened) {fd : Nat} (h : d.obtained = some fd) :
    fd ∉ opened := by
  rw [Dial.obtained] at h
  split at h
  · exact hfresh fd h
  · exact absurd h (by simp)

/-- A call that has returned without having reached `addsocket()` leaves the state as it was
exactly when there was a connection already or no descriptor has been obtained; `ami_socket`,
`m_connect` and epoll are as they were in any case. -/
theorem gave_up_iff (st : LoginState) (c : LoginCall) (hfresh : c.dial.Fresh st.opened)
    (h : (amiLogin st c).2.gaveUp = true) :
    ((amiLogin st c).1 = st ↔ st.amiSocket.isSome = true ∨ c.dial.obtained = none) ∧
      (amiLogin st c).1 = { st with opened := (amiLogin st c).1.opened } := by
  by_cases hsock : st.amiSocket.isSome = true
  · rw [amiLogin_present hsock]
    exact ⟨⟨fun _ => .inl hsock, fun _ => rfl⟩, rfl⟩
  · have hnull : st.amiSocket = none := Option.not_isSome_iff_eq_none.mp hsock
    rw [amiLogin_opened hnull hfresh h]
    refine ⟨?_, rfl⟩
    cases hdial : c.dial.obtained with
    | none => simp
    | some fd =>
      have hnot := obtained_fresh hfresh hdial
      have hne : insert fd st.opened ≠ st.opened := fun heq => hnot (Finset.insert_eq_self.mp heq)
      constructor
      · intro heq
        exact absurd (congrArg LoginState.opened heq) hne
      · rintro (hsome | hnone)
        · exact absurd hsome hsock
        · exact absurd hnone (by simp)

end Call

/-- There is nobody at the address. -/
def nobody : LoginCall := ⟨⟨true, some 5, false, true⟩, .ready, []⟩

theorem gave_up_iff_nobody : (amiLogin { opened := {0, 1, 2} } nobody).1 = { opened := {0, 1, 2} } :=
  (gave_up_iff { opened := {0, 1, 2} } nobody (by decide) (by decide)).1.mpr (.inr rfl)

/-- The peer accepts the connection and says nothing. -/
def silent : LoginCall := ⟨⟨true, some 5, true, true⟩, .timeout, []⟩

theorem silent_leaks : silent.dial.Fresh {0, 1, 2} ∧
    (amiLogin { opened := {0, 1, 2} } silent).2.gaveUp = true ∧
    (amiLogin { opened := {0, 1, 2} } silent).1 ≠ { opened := {0, 1, 2} } := by
  refine ⟨by decide, by decide, fun heq => ?_⟩
  exact absurd (congrArg LoginState.opened heq) (by decide)

-- ════════════════════════════════════════════════════════════════════════
-- The main thread tries again
-- ════════════════════════════════════════════════════════════════════════

/-- A call of `amiLogin()` by the main thread, which gives up. -/
def LoginState.retry (st : LoginState) (c : LoginCall) : Option LoginState :=
  if st.amiSocket = none ∧ c.dial.Fresh st.opened ∧ (amiLogin st c).2.gaveUp = true then
    some (amiLogin st c).1
  else none

section Retries

open Execution

variable {st st' : LoginState} {c : LoginCall} {cs : List LoginCall}

theorem retry_leaks (h : st.retry c = some st') :
    st' = { st with opened := st'.opened } ∧
      st'.opened.card = st.opened.card + (c.dial.obtained.elim 0 fun _ => 1) := by
  rw [LoginState.retry] at h
  split at h
  · next hcall =>
    obtain ⟨hnull, hfresh, hup⟩ := hcall
    obtain rfl := Option.some.inj h
    rw [amiLogin_opened hnull hfresh hup]
    refine ⟨rfl, ?_⟩
    cases hdial : c.dial.obtained with
    | none => rfl
    | some fd => exact Finset.card_insert_of_notMem (obtained_fresh hfresh hdial)
  · exact absurd h (by simp)

/-- However often the login is tried in vain, every descriptor that was obtained stays open. -/
theorem retries_leak (st st' : LoginState) (cs : List LoginCall)
    (h : run LoginState.retry st cs = some st') :
    st' = { st with opened := st'.opened } ∧
      st'.opened.card = st.opened.card + (cs.filterMap fun c => c.dial.obtained).length := by
  induction cs generalizing st with
  | nil =>
    obtain rfl := Option.some.inj h
    exact ⟨rfl, rfl⟩
  | cons c cs ih =>
    obtain ⟨st₁, hstep, hrest⟩ := Option.bind_eq_some_iff.mp h
    obtain ⟨hsame, hcard⟩ := retry_leaks hstep
    obtain ⟨hsame', hcard'⟩ := ih st₁ hrest
    rw [hsame] at hsame'
    refine ⟨hsame', ?_⟩
    rw [hcard', hcard, List.filterMap_cons]
    cases c.dial.obtained with
    | none => rfl
    | some fd =>
      rw [List.length_cons, Option.elim_some]
      omega

end Retries

end Tst
