import Tst.Http.Response

/-!
# Responses that do not fit

`response_http()` counts in `com_len` what its prints return, which is more than they have stored
when the buffer is full. Here the prints are checked, and what they have stored is counted apart.

## Main definitions

- `responseHttpIn` — the function with checked prints
- `FitsWith` — the sizes for which every check is passed

## Main results

- `responseHttpIn_iff` — when `response_http()` stays inside the send buffer
-/

namespace Tst

open Bytes CString Decimal

/-- A send buffer that is printed into. `formatted` is the number of bytes that the prints have
stored one behind the other, without the NUL that ends each of them. -/
structure Printing where
  d : TstData
  formatted : Nat := 0

namespace Printing

/-- The text and a NUL are stored at `s + p`, below `s_len`. -/
def store (st : Printing) (p : Nat) (text : List UInt8) : Except Fault Printing :=
  if p + text.length < st.d.sLen.toNat then
    .ok { d := { st.d with s := splice st.d.s p (text ++ [0]) }
          formatted := st.formatted + text.length }
  else .error .bounds

/-- `com_len = sprintf(s, …)`. -/
def first (d : TstData) (text : List UInt8) : Except Fault Printing := do
  let st ← store { d } 0 text
  return { st with d := { st.d with comLen := wouldBe text } }

/-- `com_len += snprintf(s + com_len, s_len - com_len, …)`, where the size must be that of the
space behind what has been formatted. -/
def more (st : Printing) (text : List UInt8) : Except Fault Printing := do
  let n := (st.d.sLen - st.d.comLen).toNat
  if st.formatted + n ≠ st.d.sLen.toNat then .error .bounds
  else do
    let st ← (if n = 0 then .ok st else st.store st.d.comLen.toNat (text.take (n - 1)))
    return { st with d := { st.d with comLen := st.d.comLen + wouldBe text } }

/-- The body, if there is one. -/
def html (st : Printing) (html : List UInt8) : Except Fault Printing :=
  if html ≠ [] then st.more (htmlPart html) else .ok st

/-- `write(sd, s, com_len)`, of no more than `s_len` bytes and only of formatted ones. -/
def writeOut (st : Printing) : Except Fault (Printing × List UInt8) :=
  if st.d.comLen.toNat ≤ st.d.sLen.toNat ∧ st.d.comLen.toNat ≤ st.formatted then
    .ok (st, st.d.s.take st.d.comLen.toNat)
  else .error .bounds

end Printing

/-- What is printed behind the status line. -/
def ResponseInfo.pieces (r : ResponseInfo) : List (List UInt8) :=
  r.httpHeaders.map ResponseHeader.line ++ if r.html ≠ [] then [htmlPart r.html] else []

/-- `response_http()` with checked prints. -/
def responseHttpIn (d : TstData) (r : ResponseInfo) : Except Fault (Printing × List UInt8) := do
  let st ← Printing.first d r.statusLine
  let st ← r.httpHeaders.foldlM (fun st header => st.more header.line) st
  (← st.html r.html).writeOut

/-- The texts fit into a buffer of `sLen` bytes behind `n` formatted ones. The length of the last
text is not used as a size, so that it may also be none that `com_len` can hold: `snprintf` answers
-1 for it, or the sum wraps. -/
def FitsWith (sLen : Nat) : Nat → List (List UInt8) → Prop
  | n, [] => n < sLen
  | n, [t] => n < sLen ∧ (n + t.length < sLen ∨ 2 ^ 31 ≤ t.length ∨ 2 ^ 32 ≤ n + t.length)
  | n, t :: ts => n < sLen ∧ t.length < 2 ^ 31 ∧ FitsWith sLen (n + t.length) ts

theorem FitsWith.lt {sLen n : Nat} {ts : List (List UInt8)} (h : FitsWith sLen n ts) : n < sLen := by
  cases ts with
  | nil => exact h
  | cons t ts =>
    cases ts with
    | nil => exact h.1
    | cons t' ts => exact h.1

theorem fitsWith_cons {sLen n : Nat} {t t' : List UInt8} {ts : List (List UInt8)} :
    FitsWith sLen n (t :: t' :: ts) ↔
      n < sLen ∧ t.length < 2 ^ 31 ∧ FitsWith sLen (n + t.length) (t' :: ts) := Iff.rfl

-- ════════════════════════════════════════════════════════════════════════
-- One print
-- ════════════════════════════════════════════════════════════════════════

namespace Printing

/-- `com_len` is what has been formatted, and there is room for a NUL. -/
structure Counts (st : Printing) : Prop where
  comLen : st.d.comLen.toNat = st.formatted
  pos : 0 < st.formatted
  room : st.formatted < st.d.sLen.toNat

variable {st st' : Printing} {d : TstData} {text t : List UInt8} {ts : List (List UInt8)}

theorem toNat_wouldBe (text : List UInt8) :
    (wouldBe text).toNat = if text.length < 2 ^ 31 then text.length else 2 ^ 32 - 1 := by
  rw [wouldBe]
  split
  · next hlt =>
    rw [UInt32.toNat_ofNat', Nat.mod_eq_of_lt (by omega)]
  · rfl

theorem store_ok (st : Printing) (p : Nat) (text : List UInt8)
    (h : p + text.length < st.d.sLen.toNat) :
    ∃ st', st.store p text = .ok st' ∧ st'.d.sLen = st.d.sLen ∧ st'.d.comLen = st.d.comLen ∧
      st'.formatted = st.formatted + text.length :=
  ⟨_, if_pos h, rfl, rfl, rfl⟩

/-- What a print leaves: as much as there is room for has been formatted. -/
theorem Counts.more (h : Counts st) (text : List UInt8) :
    ∃ st', st.more text = .ok st' ∧ st'.d.sLen = st.d.sLen ∧
      st'.d.comLen = st.d.comLen + wouldBe text ∧
      st'.formatted = st.formatted + min text.length (st.d.sLen.toNat - st.formatted - 1) := by
  have hroom := h.room
  have hle : st.d.comLen ≤ st.d.sLen := UInt32.le_iff_toNat_le.mpr (by rw [h.comLen]; omega)
  have hn : (st.d.sLen - st.d.comLen).toNat = st.d.sLen.toNat - st.formatted := by
    rw [UInt32.toNat_sub_of_le _ _ hle, h.comLen]
  have hlen : (text.take (st.d.sLen.toNat - st.formatted - 1)).length =
      min text.length (st.d.sLen.toNat - st.formatted - 1) := by
    rw [List.length_take, Nat.min_comm]
  obtain ⟨st₁, hstore, hsLen, hcom, hformatted⟩ :=
    store_ok st st.d.comLen.toNat (text.take (st.d.sLen.toNat - st.formatted - 1))
      (by rw [hlen, h.comLen]; omega)
  refine ⟨{ st₁ with d := { st₁.d with comLen := st₁.d.comLen + wouldBe text } }, ?_, hsLen,
    by rw [hcom], by rw [hformatted, hlen]⟩
  rw [Printing.more, hn]
  dsimp only
  rw [if_neg (by omega), if_neg (by omega), hstore, ok_bind]
  rfl

/-- A print is not made with the space that there is when `com_len` is something else. -/
theorem more_error (hcom : st.d.comLen.toNat ≠ st.formatted)
    (hroom : st.formatted < st.d.sLen.toNat) (text : List UInt8) :
    st.more text = .error .bounds := by
  have hmax := st.d.sLen.toNat_lt
  have hlt := st.d.comLen.toNat_lt
  have hn : st.formatted + (st.d.sLen - st.d.comLen).toNat ≠ st.d.sLen.toNat := by
    rw [UInt32.toNat_sub]
    omega
  rw [more, if_pos hn]

/-- What is behind a print that was cut off, or has answered -1, is not printed with the space
that there is. -/
theorem Counts.next_error (h : Counts st) (hmore : st.more text = .ok st')
    (hover : ¬(text.length < 2 ^ 31 ∧ st.formatted + text.length < st.d.sLen.toNat)) :
    st'.more t = .error .bounds := by
  have hroom := h.room
  have hpos := h.pos
  have hmax := st.d.sLen.toNat_lt
  obtain ⟨st₁, hst₁, hsLen, hcom, hformatted⟩ := h.more text
  obtain rfl := Except.ok.inj (hst₁.symm.trans hmore)
  have hwould := toNat_wouldBe text
  apply more_error
  · rw [hcom, UInt32.toNat_add, h.comLen, hwould, hformatted]
    split
    · next hint =>
      rw [Nat.min_eq_right (by omega)]
      omega
    · next hint =>
      have hmin := Nat.le_add_right st.formatted
        (min text.length (st.d.sLen.toNat - st.formatted - 1))
      omega
  · rw [hformatted, hsLen]
    have hmin := Nat.min_le_right text.length (st.d.sLen.toNat - st.formatted - 1)
    omega

/-- A print that is not cut off. -/
theorem Counts.next (h : Counts st) (hmore : st.more text = .ok st') (hint : text.length < 2 ^ 31)
    (hfits : st.formatted + text.length < st.d.sLen.toNat) :
    Counts st' ∧ st'.d.sLen = st.d.sLen ∧ st'.formatted = st.formatted + text.length := by
  have hpos := h.pos
  have hmax := st.d.sLen.toNat_lt
  obtain ⟨st₁, hst₁, hsLen, hcom, hformatted⟩ := h.more text
  obtain rfl := Except.ok.inj (hst₁.symm.trans hmore)
  rw [Nat.min_eq_left (by omega)] at hformatted
  refine ⟨⟨?_, by omega, by rw [hformatted, hsLen]; exact hfits⟩, hsLen, hformatted⟩
  rw [hcom, UInt32.toNat_add, h.comLen, toNat_wouldBe, if_pos hint, hformatted,
    Nat.mod_eq_of_lt (by omega)]

theorem writeOut_iff : (∃ out, st.writeOut = .ok out) ↔
    st.d.comLen.toNat ≤ st.d.sLen.toNat ∧ st.d.comLen.toNat ≤ st.formatted := by
  rw [writeOut]
  split
  · next h => exact iff_of_true ⟨_, rfl⟩ h
  · next h => exact iff_of_false (by simp) h

/-- The last print: what has been counted has been formatted. -/
theorem Counts.last_iff (h : Counts st) (hmore : st.more text = .ok st') :
    (∃ out, st'.writeOut = .ok out) ↔
      st.formatted + text.length < st.d.sLen.toNat ∨ 2 ^ 31 ≤ text.length ∨
        2 ^ 32 ≤ st.formatted + text.length := by
  have hroom := h.room
  have hpos := h.pos
  have hmax := st.d.sLen.toNat_lt
  obtain ⟨st₁, hst₁, hsLen, hcom, hformatted⟩ := h.more text
  obtain rfl := Except.ok.inj (hst₁.symm.trans hmore)
  rw [writeOut_iff, hcom, hsLen, hformatted, UInt32.toNat_add, h.comLen, toNat_wouldBe]
  split
  · next hint => omega
  · next hint => omega

/-- The prints and the `write()` behind them. -/
theorem Counts.run_iff (h : Counts st) (ts : List (List UInt8)) :
    (∃ out, ts.foldlM Printing.more st >>= writeOut = .ok out) ↔
      FitsWith st.d.sLen.toNat st.formatted ts := by
  induction ts generalizing st with
  | nil =>
    have hle := Nat.le_of_lt h.room
    rw [List.foldlM_nil, FitsWith]
    exact iff_of_true (writeOut_iff.mpr ⟨h.comLen ▸ hle, Nat.le_of_eq h.comLen⟩) h.room
  | cons t ts ih =>
    obtain ⟨st₁, hmore, -⟩ := h.more t
    rw [List.foldlM_cons, hmore, ok_bind]
    cases ts with
    | nil =>
      rw [List.foldlM_nil, FitsWith, and_iff_right h.room]
      exact h.last_iff hmore
    | cons t' ts =>
      rw [fitsWith_cons, and_iff_right h.room]
      by_cases hfits : t.length < 2 ^ 31 ∧ st.formatted + t.length < st.d.sLen.toNat
      · obtain ⟨hnext, hsLen, hformatted⟩ := h.next hmore hfits.1 hfits.2
        rw [and_iff_right hfits.1, ih hnext, hsLen, hformatted]
      · refine iff_of_false ?_ fun hand => hfits ⟨hand.1, hand.2.lt⟩
        rw [List.foldlM_cons, h.next_error hmore hfits]
        simp

end Printing

section Response

variable {d : TstData} {r : ResponseInfo}

theorem statusLine_pos (r : ResponseInfo) : 0 < r.statusLine.length := by
  rw [ResponseInfo.statusLine, List.append_assoc, List.length_append]
  exact Nat.add_pos_left (by decide) _

theorem responseHttpIn_pieces (d : TstData) (r : ResponseInfo) : responseHttpIn d r =
    Printing.first d r.statusLine >>= fun st =>
      r.pieces.foldlM Printing.more st >>= Printing.writeOut := by
  rw [responseHttpIn]
  congr 1
  funext st
  rw [ResponseInfo.pieces, List.foldlM_append, List.foldlM_map, bind_assoc]
  congr 1
  funext st'
  rw [Printing.html]
  split
  · simp
  · simp

theorem first_ok (h : r.statusLine.length < d.sLen.toNat) :
    ∃ st, Printing.first d r.statusLine = .ok st ∧ st.d.sLen = d.sLen ∧
      st.d.comLen = wouldBe r.statusLine ∧ st.formatted = r.statusLine.length := by
  obtain ⟨st, hst, hsLen, -, hformatted⟩ :=
    Printing.store_ok { d } 0 r.statusLine (by rwa [Nat.zero_add])
  rw [Nat.zero_add] at hformatted
  refine ⟨{ st with d := { st.d with comLen := wouldBe r.statusLine } }, ?_, hsLen, rfl, hformatted⟩
  rw [Printing.first, hst]
  rfl

theorem first_error (h : ¬r.statusLine.length < d.sLen.toNat) :
    Printing.first d r.statusLine = .error .bounds := by
  have hstore : Printing.store { d } 0 r.statusLine = .error .bounds :=
    if_neg (by rwa [Nat.zero_add])
  rw [Printing.first, hstore]
  rfl

/-- When all checks are passed. -/
theorem responseHttpIn_ok_iff (d : TstData) (r : ResponseInfo) :
    (∃ out, responseHttpIn d r = .ok out) ↔
      r.statusLine.length < 2 ^ 31 ∧ FitsWith d.sLen.toNat r.statusLine.length r.pieces := by
  rw [responseHttpIn_pieces]
  by_cases hfirst : r.statusLine.length < d.sLen.toNat
  · obtain ⟨st, hst, hsLen, hcom, hformatted⟩ := first_ok hfirst
    have hmax := d.sLen.toNat_lt
    have hroom : st.formatted < st.d.sLen.toNat := by rwa [hformatted, hsLen]
    rw [hst, ok_bind]
    by_cases hint : r.statusLine.length < 2 ^ 31
    · have hcounts : st.Counts := by
        refine ⟨?_, by rw [hformatted]; exact statusLine_pos r, hroom⟩
        rw [hcom, Printing.toNat_wouldBe, if_pos hint, hformatted]
      rw [hcounts.run_iff, hsLen, hformatted, and_iff_right hint]
    · -- `sprintf` answers -1, which is not the length of what it has stored
      have hone : st.d.comLen.toNat = 2 ^ 32 - 1 := by
        rw [hcom, Printing.toNat_wouldBe, if_neg hint]
      refine iff_of_false ?_ fun h => hint h.1
      cases r.pieces with
      | nil =>
        rw [List.foldlM_nil]
        intro hout
        have hle := (Printing.writeOut_iff.mp hout).2
        omega
      | cons t ts =>
        rw [List.foldlM_cons, Printing.more_error (by omega) hroom]
        simp
  · rw [first_error hfirst]
    exact iff_of_false (by simp) fun h => hfirst h.2.lt

/-- Without a text longer than an `int` and a sum longer than `com_len`, everything fits or not. -/
theorem fitsWith_iff {sLen n : Nat} {ts : List (List UInt8)} (hint : ∀ t ∈ ts, t.length < 2 ^ 31)
    (hsum : n + ts.flatten.length < 2 ^ 32) : FitsWith sLen n ts ↔ n + ts.flatten.length < sLen := by
  induction ts generalizing n with
  | nil => simp [FitsWith]
  | cons t ts ih =>
    rw [List.flatten_cons, List.length_append] at hsum ⊢
    obtain ⟨ht, hts⟩ := List.forall_mem_cons.mp hint
    cases ts with
    | nil =>
      simp only [FitsWith, List.flatten_nil, List.length_nil]
      omega
    | cons t' ts =>
      rw [fitsWith_cons, ih hts (by omega)]
      omega

theorem serialize_eq (r : ResponseInfo) : r.serialize = r.statusLine ++ r.pieces.flatten := by
  rw [ResponseInfo.serialize, ResponseInfo.head, ResponseInfo.pieces, List.flatten_append,
    List.append_assoc, List.flatMap_def]
  split
  · simp
  · simp

/-- When `response_http()` stores and sends only what is inside the send buffer and has been
formatted, and gives each `snprintf` the space that is left. -/
theorem responseHttpIn_iff (d : TstData) (r : ResponseInfo) :
    ((∃ out, responseHttpIn d r = .ok out) ↔
      r.statusLine.length < 2 ^ 31 ∧ FitsWith d.sLen.toNat r.statusLine.length r.pieces) ∧
    ((∀ t ∈ r.statusLine :: r.pieces, t.length < 2 ^ 31) → r.serialize.length < 2 ^ 32 →
      ((∃ out, responseHttpIn d r = .ok out) ↔ r.serialize.length < d.sLen.toNat)) := by
  refine ⟨responseHttpIn_ok_iff d r, fun hint hsum => ?_⟩
  obtain ⟨hstatus, hpieces⟩ := List.forall_mem_cons.mp hint
  rw [serialize_eq, List.length_append] at hsum ⊢
  rw [responseHttpIn_ok_iff, and_iff_right hstatus, fitsWith_iff hpieces hsum]

/-- The answer of `http_alive()`, in as many bytes as it needs. -/
theorem responseHttpIn_iff_alive : ∃ out, responseHttpIn (.alloc 18) aliveOk = .ok out :=
  ((responseHttpIn_iff (.alloc 18) aliveOk).2 (by decide) (by decide)).mpr (by decide)

theorem hello_noNul : (0 : UInt8) ∉ ([104, 101, 108, 108, 111] : List UInt8) := by decide

/-- The same answer with a body. -/
def aliveHello : ResponseInfo := { aliveOk with htmlText := some ⟨[104, 101, 108, 108, 111], hello_noNul⟩ }

/-- 47 bytes are handed to `write()` from a buffer of 24. -/
theorem responseHttpIn_overrun :
    responseHttpIn (.alloc 24) aliveHello = .error .bounds ∧
      ¬∃ out, responseHttpIn (.alloc 24) aliveHello = .ok out := by
  have hrun : responseHttpIn (.alloc 24) aliveHello = .error .bounds := rfl
  exact ⟨hrun, by rw [hrun]; simp⟩

end Response

-- ════════════════════════════════════════════════════════════════════════
-- The checked function is the function
-- ════════════════════════════════════════════════════════════════════════

namespace Printing

variable {st st' : Printing} {d : TstData} {text : List UInt8}

/-- What is stored below `s_len` is stored inside the buffer. -/
theorem store_eq {p : Nat} (hwf : st.d.WF) (h : st.store p text = .ok st') :
    ∃ s, sprintf st.d.s p text = .ok s ∧ st'.d = { st.d with s := s } ∧ st'.d.WF := by
  have hle : st.d.sLen.toNat ≤ st.d.s.length := hwf
  rw [store] at h
  split at h
  · next hlt =>
    obtain rfl := Except.ok.inj h
    refine ⟨_, if_pos (Nat.lt_of_lt_of_le hlt hle), rfl, ?_⟩
    rw [TstData.WF, length_splice]
    exact hwf
  · exact absurd h (by simp)

theorem wouldBe_eq (h : text.length < 2 ^ 31) : wouldBe text = UInt32.ofNat text.length := if_pos h

theorem printMore_of_ok (hwf : st.d.WF) (hint : text.length < 2 ^ 31)
    (h : st.more text = .ok st') : printMore st.d text = .ok st'.d ∧ st'.d.WF := by
  rw [more] at h
  split at h
  · exact absurd h (by simp)
  · obtain ⟨st₁, hst₁, h⟩ := bind_eq_ok.mp h
    obtain rfl := Except.ok.inj h
    rw [printMore, snprintf, ← wouldBe_eq hint]
    split at hst₁
    · next hn =>
      obtain rfl := Except.ok.inj hst₁
      rw [if_pos hn]
      exact ⟨rfl, hwf⟩
    · next hn =>
      obtain ⟨s, hs, hd, hwf'⟩ := store_eq hwf hst₁
      rw [if_neg hn, hs, hd]
      exact ⟨rfl, hd ▸ hwf'⟩

theorem headers_of_ok {headers : List ResponseHeader} (hwf : st.d.WF)
    (hint : ∀ header ∈ headers, header.line.length < 2 ^ 31)
    (h : headers.foldlM (fun st header => st.more header.line) st = .ok st') :
    headers.foldlM (fun d header => printMore d header.line) st.d = .ok st'.d ∧ st'.d.WF := by
  induction headers generalizing st with
  | nil =>
    obtain rfl := Except.ok.inj h
    exact ⟨rfl, hwf⟩
  | cons header headers ih =>
    obtain ⟨hfirst, hrest⟩ := List.forall_mem_cons.mp hint
    rw [List.foldlM_cons] at h ⊢
    obtain ⟨st₁, hst₁, h⟩ := bind_eq_ok.mp h
    obtain ⟨hprint, hwf₁⟩ := printMore_of_ok hwf hfirst hst₁
    rw [hprint, ok_bind]
    exact ih hwf₁ hrest h

end Printing

/-- Where the checks are passed, and no text is longer than an `int`, the checked function does
what the function does. -/
theorem responseHttp_of_ok {d : TstData} {r : ResponseInfo} {st : Printing} {bytes : List UInt8}
    (hwf : d.WF) (hint : ∀ t ∈ r.statusLine :: r.pieces, t.length < 2 ^ 31)
    (h : responseHttpIn d r = .ok (st, bytes)) : responseHttp d r = .ok (st.d, bytes) := by
  obtain ⟨hstatus, hpieces⟩ := List.forall_mem_cons.mp hint
  rw [ResponseInfo.pieces, List.forall_mem_append, List.forall_mem_map] at hpieces
  obtain ⟨st₁, hfirst, hrest⟩ := bind_eq_ok.mp h
  obtain ⟨st₂, hheaders, hend⟩ := bind_eq_ok.mp hrest
  obtain ⟨st₃, hhtml, hwrite⟩ := bind_eq_ok.mp hend
  -- the status line
  obtain ⟨st₀, hstore, hfirst⟩ := bind_eq_ok.mp hfirst
  obtain rfl := Except.ok.inj hfirst
  obtain ⟨s, hs, hd, hwf₀⟩ := Printing.store_eq hwf hstore
  -- the headers
  have hwf₁ : ({ st₀ with d := { st₀.d with comLen := wouldBe r.statusLine } } : Printing).d.WF :=
    hwf₀
  obtain ⟨hprinted, hwf₂⟩ := Printing.headers_of_ok hwf₁ hpieces.1 hheaders
  -- the body
  have hbody : printHtml st₂.d r.html = .ok st₃.d ∧ st₃.d.WF := by
    rw [printHtml]
    rw [Printing.html] at hhtml
    split at hhtml
    · next hne =>
      rw [if_pos hne] at hpieces
      obtain ⟨hprint, hwf₃⟩ := Printing.printMore_of_ok hwf₂
        (hpieces.2 _ (List.mem_singleton.mpr rfl)) hhtml
      exact ⟨(if_pos hne).trans hprint, hwf₃⟩
    · next hne =>
      obtain rfl := Except.ok.inj hhtml
      exact ⟨if_neg hne, hwf₂⟩
  obtain ⟨hhtml, hwf₃⟩ := hbody
  have hle : st₃.d.sLen.toNat ≤ st₃.d.s.length := hwf₃
  rw [Printing.writeOut] at hwrite
  split at hwrite
  · next hcount =>
    obtain ⟨rfl, rfl⟩ := Prod.mk.inj (Except.ok.inj hwrite)
    rw [responseHttp, hs, ok_bind, ← Printing.wouldBe_eq hstatus]
    rw [hd] at hprinted
    dsimp only at hprinted ⊢
    rw [hprinted, ok_bind, hhtml, ok_bind, Tst.writeOut, if_pos (Nat.le_trans hcount.1 hle)]
  · exact absurd hwrite (by simp)

end Tst
