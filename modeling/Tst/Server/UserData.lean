import Tst.Lib.Execution
import Tst.Server.Connection

/-!
# The type of the user data

Three protocols read the one block of `user_data` as their own. Which one is asked follows
from `func` and `type`, as long as `websocket()` does not answer `tst_run`: then `http()`
goes on to read the `WS_INFO` as a request.

## Main definitions

- `HttpSocket.Typed` — the block is the one that the connection's function expects
- `neverRuns` — the user functions of the upgraded connections do not answer `tst_run`

## Main results

- `user_data_typed` — no block is misread when they do not
- `user_data_misread` — one is when they do
-/

namespace Tst

open CString Execution

namespace HttpSocket

/-- The block is the one that the connection's function expects. -/
inductive Typed (sock : HttpSocket) : Prop
  | empty (hfunc : sock.func = none) (htype : sock.type = .sub) (huser : sock.user = none)
  | request (req : RequestInfo) (hfunc : sock.func = none) (htype : sock.type = .sub)
      (huser : sock.user = some (.request req))
  | upgraded (info : WsInfo) (func : Option (List UInt8)) (hfunc : sock.func = some .websocket)
      (htype : sock.type = .websocket) (huser : sock.user = some (.ws info func))
  | ami (hfunc : sock.func = some .amiEvent) (huser : sock.user = some .manage)

end HttpSocket

/-- A connection, whether it has come to an end, whether a block of it has been misread, and
whether `http()` has gone on to its own part after the upgrade. -/
structure ServerLink where
  sock : HttpSocket
  ended : Bool := false
  misread : Bool := false
  reparsed : Bool := false

/-- Bytes arrive, or the connection is woken. -/
inductive ServerAction
  | arrive (bs : List UInt8)
  | wake (e : Events) (n : Nat) (k : Kernel) (c : Surroundings)

/-- One action. -/
def ServerLink.step (l : ServerLink) : ServerAction → Option ServerLink
  | .arrive bs => some { l with sock := { l.sock with unread := l.sock.unread ++ bs } }
  | .wake e n k c =>
    if l.ended = false then
      let r := l.sock.wake e n k c
      some {
        sock := r.sock
        ended := !r.served.goesOn
        misread := l.misread || r.served = .misread
        reparsed := l.reparsed || (l.sock.func = some .websocket && r.parsed) }
    else none

/-- The user functions of the upgraded connections do not answer `tst_run`. -/
def neverRuns (_ : ServerLink) : ServerAction → Prop
  | .arrive _ => True
  | .wake _ _ _ c => ∀ name d, c.websocketFunc name d ≠ .run

-- ════════════════════════════════════════════════════════════════════════
-- One call
-- ════════════════════════════════════════════════════════════════════════

/-- No block has been misread, and unless there was a fault the connection has the block that
it expects. -/
def HttpReturn.Fine (r : HttpReturn) : Prop :=
  r.served ≠ .misread ∧ ∀ next, r.served = .answer next → r.sock.Typed

namespace HttpSocket

variable {sock : HttpSocket} {c : Surroundings} {e : Events}

theorem websocketConnect_fine {req : RequestInfo} (hfunc : sock.func = some .websocket)
    (huser : sock.user = some (.request req)) : (sock.websocketConnect c).Fine := by
  rw [websocketConnect, huser]
  simp only
  cases deref req.requestUri >>= str sock.recv.s with
  | error f => exact ⟨by simp, fun _ hnext => absurd hnext (by simp)⟩
  | ok uri => exact ⟨by simp, fun _ _ => .upgraded {} _ hfunc rfl rfl⟩

/-- The user function's `tst_run` is the only one of `websocket()`. -/
theorem websocket_next (w : WsRecv) {junk : Nat → UInt8} {func : Option WebsocketFunc}
    (hfunc : ∀ f ∈ func, ∀ d, f d ≠ .run) : (w.websocket junk func).next ≠ .run := by
  have hfinish : ∀ v : WsRecv, (v.finish func).next ≠ .run := by
    intro v
    cases func with
    | none =>
      have hclose : ∀ b : Bool, (if b then TstStat.disconnect else .suspend) ≠ .run := by decide
      exact hclose _
    | some f => exact hfunc f rfl _
  rw [WsRecv.websocket]
  split
  · simp only
    split
    · simp
    · split
      · simp
      · exact hfinish _
  · exact hfinish _

theorem websocketFrames_fine {info : WsInfo} {func : Option (List UInt8)}
    (hfunc : sock.func = some .websocket) (htype : sock.type = .websocket)
    (huser : sock.user = some (.ws info func)) (hrun : ∀ name d, c.websocketFunc name d ≠ .run) :
    (sock.websocketFrames c).Fine ∧ (sock.websocketFrames c).served ≠ .answer .run := by
  rw [websocketFrames, huser]
  refine ⟨⟨by simp, fun _ _ => .upgraded _ _ hfunc htype rfl⟩, ?_⟩
  intro hnext
  refine websocket_next _ ?_ (Served.answer.inj hnext)
  intro f hf d
  obtain ⟨name, -, rfl⟩ := Option.map_eq_some_iff.mp hf
  exact hrun name d

theorem callRoute_fine (hfunc : sock.func = none) (htype : sock.type = .sub) {req : RequestInfo}
    (huser : sock.user = some (.request req)) (uri : List UInt8) :
    (sock.callRoute c uri req).Fine := by
  refine ⟨by simp [callRoute], fun _ _ => ?_⟩
  rw [callRoute]
  simp only
  split
  · exact .empty hfunc htype rfl
  · exact .request req hfunc htype huser

theorem serve_fine (hfunc : sock.func = none) (htype : sock.type = .sub) (r : HttpResult) :
    (sock.serve c r).Fine := by
  rw [serve]
  cases r.outcome with
  | respond code => exact ⟨by simp, fun _ _ => .request r.req hfunc htype rfl⟩
  | body => exact ⟨by simp, fun _ _ => .request r.req hfunc htype rfl⟩
  | upgrade version key =>
    simp only
    rw [websocket, if_pos htype]
    exact websocketConnect_fine rfl rfl
  | route uri =>
    refine callRoute_fine ?_ ?_ ?_ uri
    · exact hfunc
    · exact htype
    · rfl

/-- A connection without a function has no block, or a request. -/
theorem complete_fine (hfunc : sock.func = none) (htype : sock.type = .sub)
    (huser : ∀ user ∈ sock.user, ∃ req, user = .request req) : (sock.complete c).Fine := by
  rw [complete]
  cases h : sock.user with
  | none =>
    simp only
    cases httpMessage sock.recv c.routes with
    | error f => exact ⟨by simp, fun _ hnext => absurd hnext (by simp)⟩
    | ok r => exact serve_fine hfunc htype r
  | some user =>
    obtain ⟨req, rfl⟩ := huser user h
    simp only
    cases httpBody sock.recv req c.routes with
    | error f => exact ⟨by simp, fun _ hnext => absurd hnext (by simp)⟩
    | ok r => exact serve_fine hfunc htype r

theorem httpOwn_fine (hfunc : sock.func = none) (htype : sock.type = .sub)
    (huser : ∀ user ∈ sock.user, ∃ req, user = .request req) : (sock.httpOwn e c).Fine := by
  have htyped : ∀ s : HttpSocket, s.func = none → s.type = .sub → s.user = sock.user →
      s.Typed := by
    intro s hs htype' heq
    cases h : sock.user with
    | none => exact .empty hs htype' (heq.trans h)
    | some user =>
      obtain ⟨req, rfl⟩ := huser user h
      exact .request req hs htype' (heq.trans h)
  have hreceive : sock.receive.func = none ∧ sock.receive.type = .sub ∧
      sock.receive.user = sock.user := by
    rw [receive]
    split
    · exact ⟨hfunc, htype, rfl⟩
    · exact ⟨hfunc, htype, rfl⟩
  obtain ⟨hfunc', htype', huser'⟩ := hreceive
  rw [httpOwn]
  split
  · simp only
    split
    · exact ⟨by simp, fun _ _ => htyped _ hfunc' htype' huser'⟩
    · split
      · exact ⟨by simp, fun _ _ => htyped _ hfunc' htype' huser'⟩
      · exact complete_fine hfunc' htype' (huser' ▸ huser)
  · exact ⟨by simp, fun _ _ => htyped _ hfunc htype rfl⟩

/-- One call of `http()`. -/
theorem http_fine (h : sock.Typed) (hrun : ∀ name d, c.websocketFunc name d ≠ .run) :
    (sock.http e c).Fine ∧ (sock.func = some .websocket → (sock.http e c).parsed = false) := by
  rw [http]
  cases h with
  | empty hfunc htype huser =>
    have hnone : ∀ user ∈ sock.user, ∃ req, user = .request req := by
      intro user hin
      rw [huser] at hin
      exact absurd hin (by simp)
    simp only [hfunc]
    exact ⟨httpOwn_fine hfunc htype hnone, fun hws => absurd hws (by simp)⟩
  | request req hfunc htype huser =>
    have hreq : ∀ user ∈ sock.user, ∃ req, user = .request req := by
      intro user hin
      rw [huser] at hin
      exact ⟨req, (Option.some.inj hin).symm⟩
    simp only [hfunc]
    exact ⟨httpOwn_fine hfunc htype hreq, fun hws => absurd hws (by simp)⟩
  | upgraded info func hfunc htype huser =>
    obtain ⟨hfine, hnext⟩ := websocketFrames_fine hfunc htype huser hrun
    have hframes : sock.callFunc e c .websocket = sock.websocketFrames c := by
      rw [callFunc, websocket, if_neg (by rw [htype]; simp)]
    simp only [hfunc, hframes, if_neg hnext]
    refine ⟨hfine, fun _ => ?_⟩
    rw [websocketFrames, huser]
  | ami hfunc huser =>
    have hami : (sock.callFunc e c .amiEvent).Fine ∧
        (sock.callFunc e c .amiEvent).served ≠ .answer .run := by
      rw [callFunc, amiEvent, huser]
      simp only [UserData.type, ne_eq, not_true, if_false]
      split
      · exact ⟨⟨by simp, fun _ hnext => absurd hnext (by simp)⟩, by simp⟩
      · exact ⟨⟨by simp, fun _ _ => .ami hfunc rfl⟩, by simp⟩
    simp only [hfunc, if_neg hami.2]
    exact ⟨hami.1, fun hws => absurd hws (by simp)⟩

theorem Typed.received (h : sock.Typed) (recv : TstData) (unread : List UInt8) :
    { sock with recv, unread }.Typed := by
  cases h with
  | empty hfunc htype huser => exact .empty hfunc htype huser
  | request req hfunc htype huser => exact .request req hfunc htype huser
  | upgraded info func hfunc htype huser => exact .upgraded info func hfunc htype huser
  | ami hfunc huser => exact .ami hfunc huser

/-- One wake-up. -/
theorem wake_fine (h : sock.Typed) (hrun : ∀ name d, c.websocketFunc name d ≠ .run) (n : Nat)
    (k : Kernel) : (sock.wake e n k c).Fine ∧
      (sock.func = some .websocket → (sock.wake e n k c).parsed = false) := by
  rw [wake]
  split
  · exact http_fine (h.received _ _) hrun
  · exact ⟨⟨by simp, fun _ _ => h.received _ _⟩, fun _ => rfl⟩

end HttpSocket

-- ════════════════════════════════════════════════════════════════════════
-- Runs
-- ════════════════════════════════════════════════════════════════════════

/-- Nothing has been misread, and while the connection goes on its block is the expected
one. -/
structure ServerLink.Sound (l : ServerLink) : Prop where
  typed : l.ended = false → l.sock.Typed
  read : l.misread = false
  parsed : l.reparsed = false

theorem ServerLink.Sound.step {l l' : ServerLink} {a : ServerAction} (hok : neverRuns l a)
    (h : l.Sound) (hstep : l.step a = some l') : l'.Sound := by
  cases a with
  | arrive bs =>
    obtain rfl := Option.some.inj hstep
    exact ⟨fun hon => (h.typed hon).received _ _, h.read, h.parsed⟩
  | wake e n k c =>
    rw [ServerLink.step] at hstep
    split at hstep
    · next hon =>
      obtain rfl := Option.some.inj hstep
      obtain ⟨⟨hread, htyped⟩, hparsed⟩ := HttpSocket.wake_fine (e := e) (h.typed hon) hok n k
      refine ⟨fun hon' => ?_, ?_, ?_⟩
      · cases hserved : (l.sock.wake e n k c).served with
        | answer next => exact htyped next hserved
        | fault f =>
          rw [hserved] at hon'
          exact absurd hon' (by simp [Served.goesOn])
        | misread => exact absurd hserved hread
      · simp only [h.read, Bool.false_or]
        exact decide_eq_false hread
      · simp only [h.parsed, Bool.false_or]
        by_cases hws : l.sock.func = some .websocket
        · rw [hparsed hws, Bool.and_false]
        · simp [hws]
    · exact absurd hstep (by simp)

/-- In every run in which the user functions of upgraded connections do not answer `tst_run`,
no block is misread and `http()` does not go on to its own part after an upgrade. -/
theorem user_data_typed (sd : Nat) (sLen : UInt32) (sock : HttpSocket) (as : List ServerAction)
    (l : ServerLink) (hsock : sock = .accepted sd sLen ∨ sock = .loggedIn sd sLen)
    (h : Exec ServerLink.step neverRuns { sock } as l) :
    l.misread = false ∧ l.reparsed = false := by
  have hinit : ({ sock } : ServerLink).Sound := by
    refine ⟨fun _ => ?_, rfl, rfl⟩
    rcases hsock with rfl | rfl
    · exact .empty rfl rfl rfl
    · exact .ami rfl rfl
  obtain ⟨-, hread, hparsed⟩ :=
    h.invariant (fun _ _ _ hok hl hstep => hl.step hok hstep) hinit
  exact ⟨hread, hparsed⟩

/-- A request for an upgrade of `/w`. -/
def upgradeRequest : List UInt8 :=
  textGet ++ [32, 47, 119, 32] ++ textHttp ++ text11 ++ [13, 10] ++ textConnection ++ [58, 32] ++
    textUpgrade ++ [13, 10] ++ textUpgrade ++ [58, 32] ++ textWebsocket ++ [13, 10, 13, 10]

/-- `/w` is listed in `g_websocket`, and its function always answers `next`. -/
def wsOnly (next : TstStat) : Surroundings where
  routes := []
  wsRoutes := [[47, 119]]
  handlers := []
  route _ := .disconnect
  websocketFunc _ _ := next
  junk _ := 0
  view := ⟨false, false, {}, 0, 0⟩

/-- The worker's `read()` finds these bytes. -/
def finds (bs : List UInt8) : Kernel where
  siocinq := some (UInt32.ofNat bs.length)
  read n := some ⟨bs.take n, List.length_take_le ..⟩
  write _ := none

/-- An upgrade, and a text frame whose second byte of payload is left to the worker. -/
def upgradeRun (next : TstStat) : List ServerAction :=
  [.arrive upgradeRequest, .wake .base 60 (finds []) (wsOnly next), .arrive [0x81, 2, 72],
    .wake .base 3 (finds []) (wsOnly next), .arrive [105],
    .wake .base 1 (finds [105]) (wsOnly next)]

theorem user_data_typed_upgrade : ∃ l, Exec ServerLink.step neverRuns { sock := .accepted 5 128 }
    (upgradeRun .suspend) l ∧ l.misread = false ∧ l.reparsed = false := by
  have hrun : (run ServerLink.step { sock := .accepted 5 128 }
      (upgradeRun .suspend)).isSome = true := by decide +kernel
  obtain ⟨l, hl⟩ := Option.isSome_iff_exists.mp hrun
  have hok : ∀ a ∈ upgradeRun .suspend, ∀ s, neverRuns s a := by
    have hws : ∀ name d, (wsOnly .suspend).websocketFunc name d ≠ .run :=
      fun _ _ => show TstStat.suspend ≠ .run by decide
    simp only [upgradeRun, List.forall_mem_cons]
    exact ⟨fun _ => trivial, fun _ => hws, fun _ => trivial, fun _ => hws, fun _ => trivial,
      fun _ => hws, List.forall_mem_nil _⟩
  have hexec := Exec.of_run_of_forall hl hok
  exact ⟨l, hexec, user_data_typed 5 128 _ _ l (.inl rfl) hexec⟩

/-- The user function answers `tst_run`: `http()` reads the `WS_INFO` as a request. -/
theorem user_data_misread : (run ServerLink.step { sock := .accepted 5 128 }
    (upgradeRun .run)).any (fun l => l.misread && l.reparsed) = true := by
  decide +kernel

end Tst
