import Tst.Ami.Matched

/-!
# Responses and the actions they belong to

## Main results

- `Matched.eventStep` — a step of `ami_event` keeps what is known of the responses, if it finds
  the number of the call in `actionid`
- `response_matches_action` — what `ami_sync` returns belongs to the action it has written
-/

namespace Tst.Ami

open Execution

variable {ι : Type} {s s' : State ι} {i : ι}

-- ════════════════════════════════════════════════════════════════════════
-- Steps of `ami_event`
-- ════════════════════════════════════════════════════════════════════════

/-- A step of `ami_event` that leaves the calls alone. -/
theorem CallMatched.quiet (h : CallMatched s i) (hcall : s'.call = s.call)
    (hmessages : s'.messages = s.messages) (hlog : s.log <+: s'.log) (hsocket : s'.socket = s.socket)
    (hfilling : s.event.filling = none)
    (hpResp : s'.pResp = none ∨ s'.pResp = s.pResp ∧ s'.event.filling = none ∧
      s'.event.clearing = s.event.clearing) : CallMatched s' i := by
  refine h.frame (by rw [hcall]) (by rw [hcall]) (by rw [hcall]) (by rw [hcall])
    ⟨by rw [hcall], by rw [hcall], hmessages ▸ List.prefix_refl _, hlog, fun hs => hsocket.trans hs⟩
    (by simp [hfilling]) fun hp => ?_
  rcases hpResp with hnone | ⟨hsame, hfill, hclear⟩
  · simp [hnone] at hp
  · exact ⟨hsame ▸ hp, by rw [hfill, hfilling], hclear⟩

/-- A step of `ami_event` on the response of another call. -/
theorem CallMatched.bystander {p : ι} (h : CallMatched s i) (hip : i ≠ p)
    (hcall : s'.call i = s.call i) (hmessages : s'.messages = s.messages)
    (hlog : s.log <+: s'.log) (hsocket : s'.socket = s.socket) (hp : s'.pResp = some p)
    (hfilling : s.event.filling = none ∨ s.event.filling = some p) : CallMatched s' i := by
  refine h.frame (by rw [hcall]) (by rw [hcall]) (by rw [hcall]) (by rw [hcall])
    ⟨by rw [hcall], by rw [hcall], hmessages ▸ List.prefix_refl _, hlog, fun hs => hsocket.trans hs⟩
    (fun hi => ?_) fun hi => ?_
  · rcases hfilling with hfilling | hfilling
    · simp [hfilling] at hi
    · exact absurd (Option.some.inj (hi.symm.trans hfilling)) hip
  · exact absurd (Option.some.inj (hi.symm.trans hp)) hip

/-- A step of `ami_event` on the response of the call that `pResp` points at. -/
theorem CallMatched.served (h : CallMatched s i) (hp : s.pResp = some i)
    (hclearing : s.event.clearing ≠ some i) (hpc : (s'.call i).pc = (s.call i).pc)
    (hkind : (s'.call i).kind = (s.call i).kind) (hout : (s'.call i).out = (s.call i).out)
    (hlog : s.log <+: s'.log) (hsocket : s'.socket = s.socket)
    (hmode : (s'.call i).resp.mode = .request ∨ s'.event.filling = some i ∨
      s'.event.clearing = some i)
    (hlate : (s'.call i).resp.result = (s.call i).resp.result ∨ s'.event.clearing = some i)
    (hanswered : (s.call i).pc ≠ .returned → Final (s'.call i).resp →
      (∃ n m, Filled s' i (s'.call i).resp n m) ∨ s'.event.filling = some i)
    (hbound : ∀ n, (s'.call i).completedBy = some n → n < s'.messages.length) :
    CallMatched s' i := by
  have hpending := h.pending hp
  have hearly := CallPc.not_early_of_published hpending.pc
  -- what has been returned is not of the server
  have hopen (r : AmiResponse) (hr : (s'.call i).out = some r) : ¬ Final r :=
    fun hfinal => hclearing (hpending.out r (hout ▸ hr) hfinal)
  refine ⟨fun he => ?_, fun hpublish => ?_, fun _ => ⟨?_, ?_, ?_, hmode, fun hl => ?_, ?_⟩, ?_,
    fun r hr => ⟨?_, fun hfinal => absurd hfinal (hopen r hr)⟩, hbound⟩
  · rw [hpc, hearly] at he
    exact absurd he Bool.false_ne_true
  · rw [← hpc, hpublish] at hearly
    exact absurd hearly (by simp [CallPc.early])
  · rw [hkind]
    exact hpending.sync
  · rw [hpc]
    exact hpending.pc
  · rw [hpc, hsocket]
    exact hpending.wrote.imp_right (Or.imp_left fun hm => hlog.subset hm)
  · rw [hpc] at hl
    refine hlate.imp_left fun hresult => ?_
    rw [hresult]
    exact (hpending.late hl).resolve_right hclearing
  · exact fun r hr hfinal => absurd hfinal (hopen r hr)
  · rw [hpc]
    exact hanswered
  · rw [hpc]
    exact (h.out r (hout ▸ hr)).1

theorem Compared.of_hand {e : EventPc ι} (h : e.hand = none) : Compared s e := by
  cases e <;> simp_all [EventPc.hand, Compared]

/-- A step of `ami_event` that receives no message. -/
theorem EventMatched.next (h : EventMatched s)
    (hhand : ∀ m p, s'.event.hand = some (m, p) → Taken s' m p) (hcompared : Compared s' s'.event)
    (hmessages : s'.messages = s.messages)
    (hmessage : ∀ m, s'.event.message = some m → s.event.message = some m)
    (hsignal : ∀ m, s'.event = .signal m → s'.pResp = none)
    (hundecided : s'.event.undecided = true →
      s.event.undecided = true ∧ ∀ j, (s'.call j).completedBy = (s.call j).completedBy) :
    EventMatched s' := by
  have hcurrent : s'.current = s.current := by rw [State.current, hmessages, State.current]
  refine ⟨hhand, hcompared, fun m hm => ?_, hsignal, fun hu j => ?_⟩
  · rw [hmessages, hcurrent]
    exact h.message m (hmessage m hm)
  · obtain ⟨hundecided, hcompleted⟩ := hundecided hu
    rw [hcompleted, hcurrent]
    exact h.fresh hundecided j

/-- A step of `ami_event` after which no message has been taken for a call. -/
theorem EventMatched.quiet (h : EventMatched s)
    (hcompleted : ∀ j, (s'.call j).completedBy = (s.call j).completedBy)
    (hmessages : s'.messages = s.messages) (hhand : s'.event.hand = none)
    (hmessage : ∀ m, s'.event.message = some m → s.event.message = some m)
    (hsignal : ∀ m, s'.event = .signal m → s'.pResp = none)
    (hundecided : s'.event.undecided = true → s.event.undecided = true) : EventMatched s' := by
  refine h.next (fun m p hp => ?_) (.of_hand hhand) hmessages hmessage hsignal
    fun hu => ⟨hundecided hu, hcompleted⟩
  rw [hhand] at hp
  cases hp

/-- What `ami_event` carries along between two points. -/
structure EventCarries (e e' : EventPc ι) : Prop where
  hand : ∀ m p, e'.hand = some (m, p) → e.hand = some (m, p)
  message : ∀ m, e'.message = some m → e.message = some m
  undecided : e'.undecided = true → e.undecided = true
  signal : ∀ m, e' ≠ .signal m
  filling : e.filling = none ∧ e'.filling = none
  clearing : e.clearing = none ∧ e'.clearing = none

theorem EventMove.carries {e e' : EventPc ι} (h : EventMove s e e') : EventCarries e e' := by
  cases h <;> constructor <;>
    simp [EventPc.hand, EventPc.message, EventPc.undecided, EventPc.filling, EventPc.clearing]

/-- The two comparisons, with the number of the call in `actionid`. -/
theorem EventMove.compared {e e' : EventPc ι} (h : EventMove s e e') (hc : Compared s e)
    (hnumbered : ∀ p ∈ e.compares, (s.call p).pc ≠ .returned → s.actionid = (s.call p).id) :
    Compared s e' := by
  cases h with
  | less m p id hid => exact ⟨hc, fun hpc => hnumbered p rfl hpc ▸ hid⟩
  | equal m p id hid =>
    intro hpc
    have heq : id = (s.call p).id := by
      rw [hnumbered p rfl hpc] at hid
      exact UInt32.le_antisymm (UInt32.not_lt.mp hid) (UInt32.not_lt.mp (hc.2 hpc))
    rw [← heq]
    exact hc.1
  | _ => trivial

theorem Matched.current_lt (hs : Matched s) {m : List UInt8} (hm : s.event.message = some m) :
    s.current < s.messages.length :=
  (List.getElem?_eq_some_iff.mp (hs.event.message m hm)).1

/-- Before its response is complete, the call that `pResp` points at has asked for it. -/
theorem Matched.requested (hs : Matched s) (hp : s.pResp = some i)
    (hfilling : s.event.filling = none) (hclearing : s.event.clearing = none) :
    (s.call i).resp.mode = .request := by
  rcases ((hs.call i).pending hp).mode with hmode | hfill | hclear
  · exact hmode
  · simp [hfilling] at hfill
  · simp [hclearing] at hclear

/-- `ami_event` has `mutexResp`, so the call has written its action and waits, or is past its
wait. -/
theorem Matched.wrote (hs : Matched s) (hp : s.pResp = some i)
    (hevent : s.event.holdsResp = true) (hsocket : s.socket ≠ false) : .wrote i ∈ s.log := by
  have hpending := (hs.call i).pending hp
  rcases hpending.wrote with hpc | hm | hlost
  · have hcall := hs.locked.resp i (by simp [hpc, Call.holdsResp, hpending.sync])
    simp [hs.locked.event hevent] at hcall
  · exact hm
  · exact absurd hlost hsocket

theorem EventPc.of_hand {e : EventPc ι} (h : e.hand = none) :
    e.filling = none ∧ e.clearing = none := by
  cases e <;> simp_all [hand, filling, clearing]

/-- A step of `ami_event` that leaves the calls alone, and after which it has no message in
hand. -/
theorem Matched.quiet (hs : Matched s) (hlocked : Locked s') (hconnected : Connected s')
    (hcall : s'.call = s.call) (hmessages : s'.messages = s.messages) (hlog : s.log <+: s'.log)
    (hsocket : s'.socket = s.socket) (hhand : s'.event.hand = none)
    (hfilling : s.event.filling = none)
    (hpResp : s'.pResp = none ∨ s'.pResp = s.pResp ∧ s.event.clearing = none)
    (hmessage : ∀ m, s'.event.message = some m → s.event.message = some m)
    (hsignal : ∀ m, s'.event = .signal m → s'.pResp = none)
    (hundecided : s'.event.undecided = true → s.event.undecided = true) : Matched s' := by
  obtain ⟨hfilling', hclearing'⟩ := EventPc.of_hand hhand
  refine ⟨hlocked, hconnected, fun i => ?_, ?_, ?_⟩
  · exact (hs.call i).quiet hcall hmessages hlog hsocket hfilling
      (hpResp.imp_right fun ⟨hsame, hclear⟩ => ⟨hsame, hfilling', hclearing'.trans hclear.symm⟩)
  · exact hs.event.quiet (fun j => by rw [hcall]) hmessages hhand hmessage hsignal hundecided
  · rw [hcall]
    exact hs.only

theorem accept_eq {resp resp' : AmiResponse} (h : resp.accept = .ok resp') :
    ∃ v, resp.responses.firstValue = .ok v ∧ resp' = { resp with
      mode := .response
      result := if textSuccess.isPrefixOf v then 0 else -1 } := by
  unfold AmiResponse.accept at h
  cases hv : resp.responses.firstValue with
  | error e => simp [hv, bind, Except.bind] at h
  | ok v =>
    refine ⟨v, rfl, ?_⟩
    simp only [hv, bind, Except.bind, pure, Except.pure, Except.ok.injEq] at h
    exact h.symm

theorem takeMessage_eq {resp resp' : AmiResponse} {m : List UInt8}
    (h : resp.takeMessage m = .ok resp') :
    resp'.mode = resp.mode ∧ resp'.result = resp.result := by
  unfold AmiResponse.takeMessage at h
  simp only [bind, Except.bind] at h
  split at h
  · exact absurd h (by simp)
  · obtain rfl := Except.ok.inj h
    exact ⟨rfl, rfl⟩

/-- The message in hand is that of a call that `pResp` points at; `s'` is `s` with the response
of this call changed. -/
structure Serves [DecidableEq ι] (s s' : State ι) (p : ι) (c : Call) : Prop where
  call : s'.call = Function.update s.call p c
  pResp : s'.pResp = s.pResp
  messages : s'.messages = s.messages
  log : s.log <+: s'.log
  socket : s'.socket = s.socket
  pc : c.pc = (s.call p).pc
  kind : c.kind = (s.call p).kind
  out : c.out = (s.call p).out
  id : c.id = (s.call p).id

section Served

variable [DecidableEq ι] {m : List UInt8} {p : ι} {c : Call}

theorem Serves.self (h : Serves s s' p c) : s'.call p = c := by
  rw [h.call, Function.update_self]

theorem Serves.other (h : Serves s s' p c) {j : ι} (hjp : j ≠ p) : s'.call j = s.call j := by
  rw [h.call, Function.update_of_ne hjp]

theorem Serves.current (h : Serves s s' p c) : s'.current = s.current := by
  rw [State.current, h.messages, State.current]

/-- The calls, after a step on the response of the one that `pResp` points at. -/
theorem Serves.calls (h : Serves s s' p c) (hs : Matched s) (hp : s.pResp = some p)
    (hfilling : s.event.filling = none ∨ s.event.filling = some p)
    (hclearing : s.event.clearing = none)
    (hmode : c.resp.mode = .request ∨ s'.event.filling = some p ∨ s'.event.clearing = some p)
    (hlate : c.resp.result = (s.call p).resp.result ∨ s'.event.clearing = some p)
    (hanswered : (s.call p).pc ≠ .returned → Final c.resp →
      (∃ n m, Filled s' p c.resp n m) ∨ s'.event.filling = some p)
    (hbound : ∀ n, c.completedBy = some n → n < s.messages.length) (i : ι) : CallMatched s' i := by
  by_cases hip : i = p
  · subst hip
    refine (hs.call i).served hp (by simp [hclearing]) ?_ ?_ ?_ h.log h.socket ?_ ?_ ?_ ?_
    · rw [h.self, h.pc]
    · rw [h.self, h.kind]
    · rw [h.self, h.out]
    · rw [h.self]
      exact hmode
    · rw [h.self]
      exact hlate
    · rw [h.self]
      exact hanswered
    · rw [h.self, h.messages]
      exact hbound
  · exact (hs.call i).bystander hip (h.other hip) h.messages h.log h.socket (h.pResp.trans hp)
      hfilling

/-- The completions, after a step that adds none. -/
theorem Serves.completedBy (h : Serves s s' p c)
    (hcompleted : c.completedBy = (s.call p).completedBy) (j : ι) :
    (s'.call j).completedBy = (s.call j).completedBy := by
  by_cases hjp : j = p
  · subst hjp
    rw [h.self, hcompleted]
  · rw [h.other hjp]

theorem Matched.take (hs : Matched s) (hsocket : s.socket ≠ false) {resp : AmiResponse}
    {id : UInt32} (hpc : s.event = .take m) (hp : s.pResp = some p)
    (hresp : (s.call p).resp.takeMessage m = .ok resp) (hid : resp.responses.actionId = .ok id)
    (hserves : Serves s s' p { s.call p with resp }) (hevent : s'.event = .less m p id)
    (hlog : s'.log = s.log ++ [.access p, .took p s.current]) (hlocked : Locked s')
    (hconnected : Connected s') : Matched s' := by
  have hwrote := hs.wrote hp (by simp [hpc, EventPc.holdsResp]) hsocket
  have hfilling : s.event.filling = none := by simp [hpc, EventPc.filling]
  have hclearing : s.event.clearing = none := by simp [hpc, EventPc.clearing]
  have hrequest := hs.requested hp hfilling hclearing
  obtain ⟨hmode, hresult⟩ := takeMessage_eq hresp
  have hcompleted := hserves.completedBy rfl
  refine ⟨hlocked, hconnected, ?_, hs.event.next (fun m' p' hp' => ?_) ?_ hserves.messages
    (by simp [hevent, hpc, EventPc.message]) (by simp [hevent])
    fun _ => ⟨by simp [hpc, EventPc.undecided], hcompleted⟩, fun i j n hi hj => ?_⟩
  · refine hserves.calls hs hp (.inl hfilling) hclearing (.inl (hmode.trans hrequest))
      (.inl hresult) ?_ (hs.call p).bound
    rintro - ⟨hresponse, -⟩
    simp [hmode, hrequest] at hresponse
  · obtain ⟨rfl, rfl⟩ : m = m' ∧ p = p' := by simpa [hevent, EventPc.hand] using hp'
    refine ⟨hserves.pResp.trans hp, ⟨_, _, hresp, by rw [hserves.self]⟩, ?_⟩
    rw [hlog, hserves.current, pair_sublist_append]
    exact .inr (.inl ⟨hwrote, by simp⟩)
  · rw [hevent, Compared, hserves.self]
    exact hid
  · exact hs.only i j n (hcompleted i ▸ hi) (hcompleted j ▸ hj)

theorem Taken.serves (h : Taken s m p) (hserves : Serves s s' p c)
    (hresponses : c.resp.responses = (s.call p).resp.responses) : Taken s' m p := by
  obtain ⟨hpResp, ⟨r₀, r₁, htake, hr₁⟩, horder⟩ := h
  refine ⟨hserves.pResp.trans hpResp, ⟨r₀, r₁, htake, ?_⟩, ?_⟩
  · rw [hserves.self, hresponses]
    exact hr₁
  · rw [hserves.current]
    exact horder.trans hserves.log.sublist

theorem Matched.fill (hs : Matched s) {past : Bool} (hpc : s.event = .fill m p past)
    (hserves : Serves s s' p { s.call p with
      resp := { (s.call p).resp with mode := .response } })
    (hevent : s'.event = .result m p past) (hlocked : Locked s') (hconnected : Connected s') :
    Matched s' := by
  have htaken := hs.event.hand m p (by simp [hpc, EventPc.hand])
  have hfilling : s'.event.filling = some p := by simp [hevent, EventPc.filling]
  have hcompleted := hserves.completedBy rfl
  refine ⟨hlocked, hconnected, ?_, hs.event.next (fun m' p' hp' => ?_) ?_ hserves.messages
    (by simp [hevent, hpc, EventPc.message]) (by simp [hevent])
    fun _ => ⟨by simp [hpc, EventPc.undecided], hcompleted⟩, fun i j n hi hj => ?_⟩
  · exact hserves.calls hs htaken.pResp (.inl (by simp [hpc, EventPc.filling]))
      (by simp [hpc, EventPc.clearing]) (.inr (.inl hfilling)) (.inl rfl)
      (fun _ _ => .inr hfilling) (hs.call p).bound
  · obtain ⟨rfl, rfl⟩ : m = m' ∧ p = p' := by simpa [hevent, EventPc.hand] using hp'
    exact htaken.serves hserves rfl
  · have hcompared := hs.event.compared
    rw [hpc] at hcompared
    rw [hevent]
    cases past with
    | true => trivial
    | false =>
      rw [Compared, hserves.self]
      exact hcompared
  · exact hs.only i j n (hcompleted i ▸ hi) (hcompleted j ▸ hj)

/-- The result of a response is stored. -/
theorem Matched.result (hs : Matched s) {past : Bool} (hpc : s.event = .result m p past)
    (resp : AmiResponse) (hresponses : resp.responses = (s.call p).resp.responses)
    (hserves : Serves s s' p { s.call p with resp, completedBy := some s.current })
    (hevent : s'.event = .clear m p)
    (hanswered : (s.call p).pc ≠ .returned → Final resp →
      resp.responses.actionId = .ok (s.call p).id ∧
        ∃ v, resp.responses.firstValue = .ok v ∧
          (resp.result = 0 ↔ textSuccess.isPrefixOf v = true))
    (hlocked : Locked s') (hconnected : Connected s') : Matched s' := by
  have htaken := hs.event.hand m p (by simp [hpc, EventPc.hand])
  have htaken' := htaken.serves hserves hresponses
  have hmessage : s.event.message = some m := by simp [hpc, EventPc.message]
  have hclearing : s'.event.clearing = some p := by simp [hevent, EventPc.clearing]
  -- the message has completed no other response
  have hfresh := hs.event.fresh (by simp [hpc, EventPc.undecided])
  refine ⟨hlocked, hconnected, ?_, hs.event.next (fun m' p' hp' => ?_) ?_ hserves.messages
    (by simp [hevent, hpc, EventPc.message]) (by simp [hevent])
    (by simp [hevent, EventPc.undecided]), fun i j n hi hj => ?_⟩
  · refine hserves.calls hs htaken.pResp (.inr (by simp [hpc, EventPc.filling]))
      (by simp [hpc, EventPc.clearing]) (.inr (.inr hclearing)) (.inr hclearing)
      (fun hreturned hfinal => .inl ⟨s.current, m, ?_⟩) fun n hn => ?_
    · obtain ⟨hnumber, hresult⟩ := hanswered hreturned hfinal
      obtain ⟨-, hparsed, horder⟩ := htaken'
      refine ⟨by rw [hserves.self], ?_, ?_, ?_, ?_, hresult⟩
      · rw [hserves.messages]
        exact hs.event.message m hmessage
      · rwa [hserves.self] at hparsed
      · rwa [hserves.current] at horder
      · rw [hserves.self]
        exact hnumber
    · obtain rfl : s.current = n := by simpa using hn
      exact hs.current_lt hmessage
  · obtain ⟨rfl, rfl⟩ : m = m' ∧ p = p' := by simpa [hevent, EventPc.hand] using hp'
    exact htaken'
  · rw [hevent]
    trivial
  · by_cases hip : i = p <;> by_cases hjp : j = p
    · rw [hip, hjp]
    · subst hip
      rw [hserves.self] at hi
      rw [hserves.other hjp] at hj
      exact absurd (hj.trans hi.symm) (hfresh j)
    · subst hjp
      rw [hserves.self] at hj
      rw [hserves.other hip] at hi
      exact absurd (hi.trans hj.symm) (hfresh i)
    · rw [hserves.other hip] at hi
      rw [hserves.other hjp] at hj
      exact hs.only i j n hi hj

end Served

/-- A call is woken, by the signal or by its timeout. -/
theorem CallMatched.woken [DecidableEq ι] {j : ι} {timedOut : Bool} (h : CallMatched s i)
    (hj : (s.call j).pc = .waiting)
    (hcall : s'.call = Function.update s.call j { s.call j with pc := .relock timedOut })
    (hmessages : s'.messages = s.messages) (hlog : s'.log = s.log) (hsocket : s'.socket = s.socket)
    (hfilling : s'.event.filling = s.event.filling)
    (hclearing : s'.event.clearing = s.event.clearing) (hpResp : s'.pResp = s.pResp)
    (hpending : s'.pResp = some j → Pending s' j) : CallMatched s' i := by
  by_cases hij : i = j
  · subst hij
    have hself : s'.call i = { s.call i with pc := .relock timedOut } := by
      rw [hcall, Function.update_self]
    refine h.goes ⟨by rw [hself], by rw [hself], hmessages ▸ List.prefix_refl _,
      hlog ▸ List.prefix_refl _, fun hs => hsocket.trans hs⟩ (by rw [hself])
      (by simp [hself, CallPc.early]) (by simp [hself]) (by simp [hself, hj])
      (.inl (by rw [hself])) (by rw [hfilling]; exact id) hpending
  · have hother : s'.call i = s.call i := by rw [hcall, Function.update_of_ne hij]
    exact h.frame (by rw [hother]) (by rw [hother]) (by rw [hother]) (by rw [hother])
      ⟨by rw [hother], by rw [hother], hmessages ▸ List.prefix_refl _, hlog ▸ List.prefix_refl _,
        fun hs => hsocket.trans hs⟩ (by rw [hfilling]; exact id)
      fun hi => ⟨hpResp ▸ hi, hfilling, hclearing⟩

/-- The completions, when a call has only been moved. -/
theorem completedBy_of_update [DecidableEq ι] {j : ι} {pc : CallPc} (k : ι) :
    (Function.update s.call j { s.call j with pc } k).completedBy = (s.call k).completedBy := by
  by_cases hkj : k = j
  · simp [hkj]
  · simp [hkj]

theorem Matched.wake [DecidableEq ι] {m : List UInt8} {j : ι} (hs : Matched s)
    (hpc : s.event = .signal m) (hj : j ∈ s.waiters)
    (hcall : s'.call = Function.update s.call j { s.call j with pc := .relock false })
    (hmessages : s'.messages = s.messages) (hlog : s'.log = s.log) (hsocket : s'.socket = s.socket)
    (hevent : s'.event = .decLoad m true) (hpResp : s'.pResp = s.pResp) (hlocked : Locked s')
    (hconnected : Connected s') : Matched s' := by
  have hnone : s'.pResp = none := hpResp.trans (hs.event.signal m hpc)
  have hcompleted (k : ι) : (s'.call k).completedBy = (s.call k).completedBy := by
    rw [hcall, completedBy_of_update]
  refine ⟨hlocked, hconnected, fun i => ?_, ?_, ?_⟩
  · exact (hs.call i).woken (hs.locked.waiters j hj) hcall hmessages hlog hsocket
      (by simp [hevent, hpc, EventPc.filling]) (by simp [hevent, hpc, EventPc.clearing]) hpResp
      fun hp => by simp [hnone] at hp
  · exact hs.event.quiet hcompleted hmessages (by simp [hevent, EventPc.hand])
      (by simp [hevent, hpc, EventPc.message]) (by simp [hevent])
      (by simp [hevent, EventPc.undecided])
  · intro i k n hi hk
    exact hs.only i k n (hcompleted i ▸ hi) (hcompleted k ▸ hk)

/-- The wait of a call runs into its timeout. -/
theorem Matched.timeout [DecidableEq ι] (hs : Matched s) (hpc : (s.call i).pc = .waiting)
    (hcall : s'.call = Function.update s.call i { s.call i with pc := .relock true })
    (hmessages : s'.messages = s.messages) (hlog : s'.log = s.log) (hsocket : s'.socket = s.socket)
    (hevent : s'.event = s.event) (hpResp : s'.pResp = s.pResp) (hlocked : Locked s')
    (hconnected : Connected s') : Matched s' := by
  have hself : s'.call i = { s.call i with pc := .relock true } := by
    rw [hcall, Function.update_self]
  have hcurrent : s'.current = s.current := by rw [State.current, hmessages, State.current]
  have hcompleted (k : ι) : (s'.call k).completedBy = (s.call k).completedBy := by
    rw [hcall, completedBy_of_update]
  have hheld (p : ι) : Held s s' p := by
    by_cases hpi : p = i
    · subst hpi
      exact ⟨by rw [hself], by rw [hself], fun _ => by simp [hpc]⟩
    · have hother : s'.call p = s.call p := by rw [hcall, Function.update_of_ne hpi]
      exact ⟨by rw [hother], by rw [hother], by rw [hother]; exact id⟩
  refine ⟨hlocked, hconnected, fun j => ?_, hs.event.next (fun m p hp => ?_) ?_ hmessages
    (by simp [hevent]) (by rw [hevent, hpResp]; exact hs.event.signal)
    fun hu => ⟨hevent ▸ hu, hcompleted⟩, ?_⟩
  · refine (hs.call j).woken hpc hcall hmessages hlog hsocket (by rw [hevent]) (by rw [hevent])
      hpResp fun hp => ?_
    have hpending := (hs.call i).pending (hpResp ▸ hp)
    refine hpending.goes ⟨by rw [hself], by rw [hself], hmessages ▸ List.prefix_refl _,
      hlog ▸ List.prefix_refl _, fun hlost => hsocket.trans hlost⟩ hevent (by rw [hself])
      (by simp [hself, CallPc.published]) ?_ (.inl (by rw [hself])) (by simp [hself, CallPc.late])
    rw [hlog, hsocket]
    exact hpending.written (by simp [hpc])
  · rw [hevent] at hp
    obtain ⟨hpResp', ⟨r₀, r₁, htake, hresponses⟩, horder⟩ := hs.event.hand m p hp
    refine ⟨hpResp.trans hpResp', ⟨r₀, r₁, htake, ?_⟩, ?_⟩
    · rw [(hheld p).responses]
      exact hresponses
    · rw [hlog, hcurrent]
      exact horder
  · rw [hevent]
    exact hs.event.compared.held fun _ p _ => hheld p
  · intro j k n hj hk
    exact hs.only j k n (hcompleted j ▸ hj) (hcompleted k ▸ hk)

/-- A message has been received. -/
theorem Matched.message [DecidableEq ι] (hs : Matched s) (m : List UInt8) (hpc : s.event = .idle)
    (hlocked : Locked { s with event := .test m, messages := s.messages ++ [m] })
    (hconnected : Connected { s with event := .test m, messages := s.messages ++ [m] }) :
    Matched { s with event := .test m, messages := s.messages ++ [m] } := by
  refine ⟨hlocked, hconnected, fun i => ?_, ⟨by simp [EventPc.hand], trivial, fun m' hm => ?_,
    by simp, fun _ j hj => ?_⟩, hs.only⟩
  · exact (hs.call i).frame rfl rfl rfl rfl
      ⟨rfl, rfl, List.prefix_append _ _, List.prefix_refl _, id⟩ (by simp [hpc, EventPc.filling])
      fun hi => ⟨hi, by simp [hpc, EventPc.filling], by simp [hpc, EventPc.clearing]⟩
  · obtain rfl : m = m' := by simpa [EventPc.message] using hm
    simp [State.current]
  · have hlt := (hs.call j).bound _ hj
    simp [State.current] at hlt

/-- The connection is lost, or deleted. -/
theorem Matched.gone [DecidableEq ι] (hs : Matched s)
    (hcall : ∀ i, s'.call i = { s.call i with cut := (s'.call i).cut })
    (hmessages : s'.messages = s.messages) (hlog : s'.log = s.log) (hpResp : s'.pResp = s.pResp)
    (hsocket : s.socket = false → s'.socket = false) (hmessage : s.event.message = none)
    (hmessage' : s'.event.message = none) (hlocked : Locked s') (hconnected : Connected s') :
    Matched s' := by
  have hnone {e : EventPc ι} (he : e.message = none) : e.hand = none ∧ e.filling = none ∧
      e.clearing = none ∧ e.undecided = false ∧ ∀ m, e ≠ .signal m := by
    cases e <;> simp_all [EventPc.message, EventPc.hand, EventPc.filling, EventPc.clearing,
      EventPc.undecided]
  obtain ⟨-, hfilling, hclearing, -, -⟩ := hnone hmessage
  obtain ⟨hhand', hfilling', hclearing', hundecided', hsignal'⟩ := hnone hmessage'
  have hcompleted (i : ι) : (s'.call i).completedBy = (s.call i).completedBy := by rw [hcall]
  refine ⟨hlocked, hconnected, fun i => ?_, ?_, fun i j n hi hj => ?_⟩
  · exact (hs.call i).frame (by rw [hcall]) (by rw [hcall]) (by rw [hcall]) (by rw [hcall])
      ⟨hcompleted i, by rw [hcall], hmessages ▸ List.prefix_refl _, hlog ▸ List.prefix_refl _,
        hsocket⟩ (by simp [hfilling])
      fun hi => ⟨hpResp ▸ hi, by rw [hfilling, hfilling'], by rw [hclearing, hclearing']⟩
  · exact hs.event.quiet hcompleted hmessages hhand' (by simp [hmessage'])
      (fun m hm => absurd hm (hsignal' m)) (by simp [hundecided'])
  · exact hs.only i j n (hcompleted i ▸ hi) (hcompleted j ▸ hj)

theorem Matched.eventStep [DecidableEq ι] (hs : Matched s)
    (hnumbered : ∀ p ∈ s.event.compares, (s.call p).pc ≠ .returned → s.actionid = (s.call p).id)
    (hstep : EventStep s s') : Matched s' := by
  have hlocked := eventStep_locked hs.locked hstep
  have hconnected := eventStep_connected hs.connected hstep
  have hsocket := hs.connected.of_event hstep
  have h := hs.event
  cases hstep with
  | move e hmove =>
    have hc := hmove.carries
    refine ⟨hlocked, hconnected, fun i => ?_, ⟨fun m p hp => ?_, ?_, fun m hm => ?_,
      fun m hm => absurd hm (hc.signal m), fun hu => h.fresh (hc.undecided hu)⟩, hs.only⟩
    · exact (hs.call i).quiet rfl rfl (List.prefix_refl _) rfl hc.filling.1
        (.inr ⟨rfl, hc.filling.2, hc.clearing.2.trans hc.clearing.1.symm⟩)
    · obtain ⟨hpResp, hparsed, horder⟩ := h.hand m p (hc.hand m p hp)
      exact ⟨hpResp, hparsed, horder⟩
    · exact (hmove.compared h.compared hnumbered).held fun _ _ _ => ⟨rfl, rfl, id⟩
    · exact h.message m (hc.message m hm)
  | mode m p e hpc he =>
    rcases he with rfl | rfl <;>
      exact hs.quiet hlocked hconnected rfl rfl (List.prefix_append _ _) rfl rfl
        (by simp [hpc, EventPc.filling]) (.inr ⟨rfl, by simp [hpc, EventPc.clearing]⟩)
        (by simp [hpc, EventPc.message]) (by simp) (by simp [hpc, EventPc.undecided])
  | misuse m hpc =>
    exact hs.quiet hlocked hconnected rfl rfl (List.prefix_refl _) rfl rfl
      (by simp [hpc, EventPc.filling]) (.inl rfl) (by simp [hpc, EventPc.message]) (by simp)
      (by simp [EventPc.undecided])
  | incStore m n hpc | lock m hpc | noWaiter m hpc | decStore m done n hpc =>
    exact hs.quiet hlocked hconnected rfl rfl (List.prefix_refl _) rfl rfl
      (by simp [hpc, EventPc.filling]) (.inr ⟨rfl, by simp [hpc, EventPc.clearing]⟩)
      (by simp [hpc, EventPc.message]) (by simp) (by simp [hpc, EventPc.undecided])
  | unlock m done e hpc he =>
    rcases he with rfl | rfl <;>
      exact hs.quiet hlocked hconnected rfl rfl (List.prefix_refl _) rfl rfl
        (by simp [hpc, EventPc.filling]) (.inr ⟨rfl, by simp [hpc, EventPc.clearing]⟩)
        (by simp [hpc, EventPc.message]) (by simp) (by simp [EventPc.undecided])
  | clear m p hpc =>
    exact hs.quiet hlocked hconnected rfl rfl (List.prefix_refl _) rfl rfl
      (by simp [hpc, EventPc.filling]) (.inl rfl) (by simp [hpc, EventPc.message]) (by simp)
      (by simp [EventPc.undecided])
  | wake m j hpc hj =>
    exact hs.wake hpc hj rfl rfl rfl rfl rfl rfl hlocked hconnected
  | take m p resp id hpc hp hresp hid =>
    exact hs.take hsocket hpc hp hresp hid
      ⟨rfl, rfl, rfl, List.prefix_append _ _, rfl, rfl, rfl, rfl, rfl⟩ rfl rfl hlocked hconnected
  | fill m p past hpc =>
    exact hs.fill hpc ⟨rfl, rfl, rfl, List.prefix_append _ _, rfl, rfl, rfl, rfl, rfl⟩ rfl hlocked
      hconnected
  | refuse m p hpc =>
    refine hs.result hpc (s.call p).resp.refuse rfl
      ⟨rfl, rfl, rfl, List.prefix_append _ _, rfl, rfl, rfl, rfl, rfl⟩ rfl ?_ hlocked hconnected
    rintro - ⟨-, hresult | hresult⟩ <;> simp [AmiResponse.refuse] at hresult
  | accept m p resp hpc hresp =>
    obtain ⟨v, hv, heq⟩ := accept_eq hresp
    refine hs.result hpc resp (by rw [heq])
      ⟨rfl, rfl, rfl, List.prefix_append _ _, rfl, rfl, rfl, rfl, rfl⟩ rfl
      (fun hreturned _ => ?_) hlocked hconnected
    rw [heq]
    refine ⟨?_, v, hv, ?_⟩
    · have hcompared := h.compared
      rw [hpc] at hcompared
      exact hcompared hreturned
    · by_cases hsuccess : textSuccess.isPrefixOf v = true <;> simp [hsuccess]

theorem Matched.step [DecidableEq ι] {a : Action ι} (hs : Matched s) (hok : Numbered s a)
    (hstep : step s a = some s') : Matched s' := by
  have hlocked := step_locked hs.locked hstep
  have hconnected := step_connected hs.connected hstep
  cases step_cases hstep with
  | call i s' hcall => exact hs.callStep hcall
  | event k s' hevent => exact hs.eventStep hok hevent
  | timeout i hpc => exact hs.timeout hpc rfl rfl rfl rfl rfl rfl hlocked hconnected
  | message m hpc => exact hs.message m hpc hlocked hconnected
  | disconnect hpc =>
    exact hs.gone (fun _ => rfl) rfl rfl rfl (fun _ => rfl) (by simp [hpc, EventPc.message]) rfl
      hlocked hconnected
  | delete hpc =>
    exact hs.gone (fun _ => rfl) rfl rfl rfl id (by simp [hpc, EventPc.message]) rfl hlocked
      hconnected

/-- In every run in which `actionid` is the number of the call whose response it is compared
with: a response of the server that a call returns has been processed after the call wrote its
action, carries the number that it wrote, has the result of its first value, and its message has
completed no other call. -/
theorem response_matches_action [DecidableEq ι] (kind : ι → Kind) (n : UInt32)
    (as : List (Action ι)) (s : State ι) (h : Exec Ami.step Numbered (State.init kind n) as s)
    (i : ι) (resp : AmiResponse) (hout : (s.call i).out = some resp) (hfinal : Final resp) :
    ∃ n m, Filled s i resp n m ∧ ∀ j, (s.call j).completedBy = some n → j = i := by
  have hinv : Matched s :=
    h.invariant (fun _ _ _ hok hs hstep => hs.step hok hstep) (.init kind n)
  obtain ⟨n, m, hfilled⟩ := ((hinv.call i).out resp hout).2 hfinal
  exact ⟨n, m, hfilled, fun j hj => hinv.only j i n hj hfilled.completed⟩

theorem response_matches_action_answered :
    ∃ s resp, Exec Ami.step Numbered (State.init (fun _ : Fin 1 => { sync := true }) 0)
        (sendRun 0 ++ answerRun (answer 49) ++ resumeRun 0) s ∧
      (s.call 0).out = some resp ∧ Final resp ∧
      ∃ n m, Filled s 0 resp n m ∧ ∀ j, (s.call j).completedBy = some n → j = 0 := by
  have hrun : (check Ami.step Numbered (State.init (fun _ : Fin 1 => { sync := true }) 0)
      (sendRun 0 ++ answerRun (answer 49) ++ resumeRun 0)).any
      (fun s => (s.call 0).out.any fun r => decide (r.mode = .response ∧ r.result = 0)) = true := by
    decide +kernel
  obtain ⟨s, hexec, hs⟩ := Exec.exists_of_check hrun
  obtain ⟨resp, hout, hresp⟩ := (Option.any_eq_true ..).mp hs
  obtain ⟨hmode, hresult⟩ := of_decide_eq_true hresp
  exact ⟨s, resp, hexec, hout, ⟨hmode, .inl hresult⟩,
    response_matches_action _ 0 _ s hexec 0 resp hout ⟨hmode, .inl hresult⟩⟩

/-- Call 0 has run into its timeout and is about to return, when `ami_async` takes the number 2
and another `ami_sync` raises `resp_waitcount`. The response of action 2 completes call 0, which
has written the number 1. -/
theorem late_response_misses_action :
    ∃ s resp, run Ami.step (State.init (fun i : Fin 3 => { sync := i ≠ 2 }) 0)
        (sendRun 0 ++ [.timeout 0] ++ List.replicate 6 (.call 0) ++ List.replicate 9 (.call 2) ++
          List.replicate 7 (.call 1) ++ answerRun (answer 50) ++ [.call 0]) = some s ∧
      (s.call 0).out = some resp ∧ Final resp ∧ resp.responses.actionId ≠ .ok (s.call 0).id := by
  have hrun : (run Ami.step (State.init (fun i : Fin 3 => { sync := i ≠ 2 }) 0)
      (sendRun 0 ++ [.timeout 0] ++ List.replicate 6 (.call 0) ++ List.replicate 9 (.call 2) ++
        List.replicate 7 (.call 1) ++ answerRun (answer 50) ++ [.call 0])).any
      (fun s => (s.call 0).out.any fun r => decide (r.mode = .response ∧ r.result = 0) &&
        decide (r.responses.actionId.toOption = some 2 ∧ (s.call 0).id = 1)) = true := by
    decide +kernel
  obtain ⟨s, hs, hout⟩ := (Option.any_eq_true ..).mp hrun
  obtain ⟨resp, hout, hresp⟩ := (Option.any_eq_true ..).mp hout
  obtain ⟨hfinal, hnumber⟩ := (Bool.and_eq_true ..).mp hresp
  obtain ⟨hmode, hresult⟩ := of_decide_eq_true hfinal
  obtain ⟨htwo, hone⟩ := of_decide_eq_true hnumber
  refine ⟨s, resp, hs, hout, ⟨hmode, .inl hresult⟩, fun heq => ?_⟩
  rw [heq, hone] at htwo
  exact absurd htwo (by decide)

end Tst.Ami
