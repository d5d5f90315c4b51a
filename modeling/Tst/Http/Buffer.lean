import Tst.Http.Query

/-!
# The buffer of a request

The parser works in the receive buffer. It does not change the buffer's size, and the count
that `tst_main` stores in the buffer has no influence on it.

## Main results

- `parseRequest_length` — the buffer keeps its length
- `decodeTarget_before` — the query is in front of the first two NULs in a row
- `httpMessage_counted` — the count has no influence
- `httpMessage_size`, `httpBody_size` — a request leaves the buffer's size alone
-/

namespace Tst

open Bytes CString

section Length

variable {s s' : List UInt8} {i : Nat} {p : Parse} {req : RequestInfo}

theorem store_length {b : UInt8} (h : store s i b = .ok s') : s'.length = s.length := by
  rw [store] at h
  split at h
  · obtain rfl := Except.ok.inj h
    exact List.length_set
  · exact absurd h (by simp)

theorem requestVersion_length (h : requestVersion s i req = .ok p) : p.s.length = s.length := by
  rw [requestVersion] at h
  obtain ⟨b, -, h⟩ := bind_eq_ok.mp h
  split at h
  · obtain rfl := Except.ok.inj h
    rfl
  · obtain ⟨supported, -, h⟩ := bind_eq_ok.mp h
    split at h
    · obtain rfl := Except.ok.inj h
      rfl
    · obtain ⟨s', hs', h⟩ := bind_eq_ok.mp h
      obtain ⟨url, -, h⟩ := bind_eq_ok.mp h
      obtain rfl := Except.ok.inj h
      exact store_length hs'

theorem requestTarget_length (h : requestTarget s i req = .ok p) : p.s.length = s.length := by
  rw [requestTarget] at h
  obtain ⟨url, -, h⟩ := bind_eq_ok.mp h
  obtain ⟨b, -, h⟩ := bind_eq_ok.mp h
  split at h
  · obtain ⟨s', hs', h⟩ := bind_eq_ok.mp h
    exact (requestVersion_length h).trans (store_length hs')
  · obtain rfl := Except.ok.inj h
    rfl

theorem requestLine_length {body : Nat} (h : requestLine s body = .ok p) :
    p.s.length = s.length := by
  rw [requestLine] at h
  obtain ⟨url, -, h⟩ := bind_eq_ok.mp h
  obtain ⟨b, -, h⟩ := bind_eq_ok.mp h
  split at h
  · obtain ⟨s', hs', h⟩ := bind_eq_ok.mp h
    exact (requestTarget_length h).trans (store_length hs')
  · obtain rfl := Except.ok.inj h
    rfl

theorem headerValue_length {value : Option Nat} (h : headerValue s i = .ok (s', value)) :
    s'.length = s.length := by
  rw [headerValue] at h
  obtain ⟨src, -, h⟩ := bind_eq_ok.mp h
  obtain ⟨b, -, h⟩ := bind_eq_ok.mp h
  split at h
  · obtain ⟨s₁, hs₁, h⟩ := bind_eq_ok.mp h
    obtain ⟨s₂, hs₂, h⟩ := bind_eq_ok.mp h
    obtain ⟨rfl, -⟩ := Prod.mk.inj (Except.ok.inj h)
    exact (store_length hs₂).trans (store_length hs₁)
  · obtain ⟨rfl, -⟩ := Prod.mk.inj (Except.ok.inj h)
    rfl

theorem parseHeaders_length {fuel : Nat} {headers headers' : List HttpHeader}
    (h : parseHeaders fuel s i headers = .ok (s', headers')) : s'.length = s.length := by
  induction fuel generalizing s i headers with
  | zero => exact absurd h (by simp [parseHeaders])
  | succ fuel ih =>
    rw [parseHeaders] at h
    obtain ⟨b, -, h⟩ := bind_eq_ok.mp h
    split at h
    · obtain ⟨rfl, -⟩ := Prod.mk.inj (Except.ok.inj h)
      rfl
    · obtain ⟨url, -, h⟩ := bind_eq_ok.mp h
      obtain ⟨c, -, h⟩ := bind_eq_ok.mp h
      split at h
      · obtain ⟨s₁, hs₁, h⟩ := bind_eq_ok.mp h
        obtain ⟨s₂, hs₂, h⟩ := bind_eq_ok.mp h
        split at h
        · obtain ⟨⟨s₃, value⟩, hs₃, h⟩ := bind_eq_ok.mp h
          exact (ih h).trans ((headerValue_length hs₃).trans
            ((store_length hs₂).trans (store_length hs₁)))
        · exact absurd h (by simp)
      · obtain ⟨rfl, -⟩ := Prod.mk.inj (Except.ok.inj h)
        rfl

theorem splitUri_length {fuel : Nat} {query query' : Option Nat}
    (h : splitUri fuel s i query = .ok (s', query')) : s'.length = s.length := by
  induction fuel generalizing s i query with
  | zero => exact absurd h (by simp [splitUri])
  | succ fuel ih =>
    rw [splitUri] at h
    obtain ⟨b, -, h⟩ := bind_eq_ok.mp h
    split at h
    · obtain ⟨rfl, -⟩ := Prod.mk.inj (Except.ok.inj h)
      rfl
    · obtain ⟨url, -, h⟩ := bind_eq_ok.mp h
      obtain ⟨c, -, h⟩ := bind_eq_ok.mp h
      split at h
      · obtain ⟨s₁, hs₁, h⟩ := bind_eq_ok.mp h
        obtain ⟨rfl, -⟩ := Prod.mk.inj (Except.ok.inj h)
        exact store_length hs₁
      · exact ih h

theorem find_bounds {f : UInt8 → Bool} {e : Nat} (h : find s f i = .ok e) :
    i ≤ e ∧ e < s.length := by
  rw [find] at h
  split at h
  · next k hk =>
    obtain rfl := Except.ok.inj h
    have hlt := (List.findIdx?_eq_some_iff_getElem.mp hk).1
    rw [List.length_drop] at hlt
    omega
  · exact absurd h (by simp)

theorem urlDecodeRewite_length (h : urlDecodeRewite s i = .ok s') : s'.length = s.length := by
  rw [urlDecodeRewite] at h
  obtain ⟨e, he, h⟩ := bind_eq_ok.mp h
  obtain ⟨hle, hlt⟩ := find_bounds he
  obtain rfl := Except.ok.inj h
  have hwindow : (window s i (e - i)).length = e - i := length_window (by omega)
  simp only [List.length_append, List.length_take, length_urlDecode, hwindow, List.length_drop]
  omega

theorem decodeAt_length {at? : Option Nat} (h : decodeAt s at? = .ok s') : s'.length = s.length := by
  cases at? with
  | none =>
    obtain rfl := Except.ok.inj h
    rfl
  | some i =>
    rw [decodeAt] at h
    obtain ⟨b, -, h⟩ := bind_eq_ok.mp h
    split at h
    · obtain rfl := Except.ok.inj h
      rfl
    · exact urlDecodeRewite_length h

theorem decodeTarget_length {query : Option Nat} (h : decodeTarget s i = .ok (s', query)) :
    s'.length = s.length := by
  rw [decodeTarget] at h
  obtain ⟨⟨s₁, query'⟩, hs₁, h⟩ := bind_eq_ok.mp h
  obtain ⟨s₂, hs₂, h⟩ := bind_eq_ok.mp h
  obtain ⟨s₃, hs₃, h⟩ := bind_eq_ok.mp h
  obtain ⟨rfl, -⟩ := Prod.mk.inj (Except.ok.inj h)
  exact (decodeAt_length hs₃).trans ((decodeAt_length hs₂).trans (splitUri_length hs₁))

/-- The parser works in place. -/
theorem parseRequest_length {body : Nat} (h : parseRequest s body = .ok p) :
    p.s.length = s.length := by
  rw [parseRequest] at h
  obtain ⟨line, hline, h⟩ := bind_eq_ok.mp h
  split at h
  · obtain rfl := Except.ok.inj h
    exact requestLine_length hline
  · obtain ⟨⟨s₁, headers⟩, hs₁, h⟩ := bind_eq_ok.mp h
    obtain ⟨uri, -, h⟩ := bind_eq_ok.mp h
    obtain ⟨⟨s₂, query⟩, hs₂, h⟩ := bind_eq_ok.mp h
    obtain rfl := Except.ok.inj h
    exact (decodeTarget_length hs₂).trans ((parseHeaders_length hs₁).trans
      (requestLine_length hline))

end Length

-- ════════════════════════════════════════════════════════════════════════
-- Where the query is
-- ════════════════════════════════════════════════════════════════════════

section Pointer
variable {s s' : List UInt8} {i e : Nat} {q : Option Nat}

/-- The search for the query does not get past two NULs in a row. -/
theorem splitUri_before {fuel : Nat} {query : Option Nat}
    (h : splitUri fuel s i query = .ok (s', q)) (he : s[e]? = some 0) (he' : s[e + 1]? = some 0)
    (hi : i ≤ e + 1) (hquery : ∀ j, query = some j → j ≤ e) :
    (∀ j, q = some j → j ≤ e) ∧ s'[e]? = some 0 := by
  induction fuel generalizing i query with
  | zero => exact absurd h (by simp [splitUri])
  | succ fuel ih =>
    rw [splitUri] at h
    obtain ⟨b, hb, h⟩ := bind_eq_ok.mp h
    split at h
    · obtain ⟨rfl, rfl⟩ := Prod.mk.inj (Except.ok.inj h)
      exact ⟨hquery, he⟩
    · next hb0 =>
      have hie : i ≤ e := by
        rcases hi.eq_or_lt with rfl | hlt
        · rw [load_eq_ok hb] at he'
          exact absurd (Option.some.inj he') hb0
        · omega
      obtain ⟨u, hu, h⟩ := bind_eq_ok.mp h
      have hue := find_le hu hie he rfl
      obtain ⟨b', hb', h⟩ := bind_eq_ok.mp h
      split at h
      · next h63 =>
        have hne : u ≠ e := by
          rintro rfl
          rw [load_eq_ok hb', h63] at he
          exact absurd (Option.some.inj he) (by decide)
        obtain ⟨s₁, hs₁, h⟩ := bind_eq_ok.mp h
        obtain ⟨rfl, rfl⟩ := Prod.mk.inj (Except.ok.inj h)
        refine ⟨fun j hj => ?_, ?_⟩
        · obtain rfl := Option.some.inj hj
          omega
        · rw [store_eq_ok hs₁, List.getElem?_set_ne hne, he]
      · exact ih h (by omega) (fun j hj => Option.some.inj hj ▸ hue)

/-- A string is decoded in front of the NUL that ends it. -/
theorem decodeAt_nul (h : decodeAt s q = .ok s') (he : s[e]? = some 0) : s'[e]? = some 0 := by
  cases q with
  | none =>
    obtain rfl := Except.ok.inj h
    exact he
  | some p =>
    rw [decodeAt] at h
    obtain ⟨b, -, h⟩ := bind_eq_ok.mp h
    split at h
    · obtain rfl := Except.ok.inj h
      exact he
    · rw [urlDecodeRewite] at h
      obtain ⟨n, hn, h⟩ := bind_eq_ok.mp h
      obtain ⟨hpn, hlt⟩ := find_bounds hn
      obtain rfl := Except.ok.inj h
      have hlen : (s.take p).length = p := by
        rw [List.length_take]
        omega
      have hwindow : (urlDecode (window s p (n - p))).length = n - p := by
        rw [length_urlDecode]
        exact length_window (by omega)
      by_cases hep : e < p
      · rw [List.append_assoc, List.getElem?_append_left (hlen.symm ▸ hep),
          List.getElem?_take_of_lt hep, he]
      · have hne : n ≤ e := find_le hn (Nat.le_of_not_lt hep) he rfl
        rw [List.getElem?_append_right (by rw [List.length_append, hlen, hwindow]; omega),
          List.length_append, hlen, hwindow, List.getElem?_drop, ← he]
        congr 1
        omega

/-- The query is in front of two NULs in a row, and so is the NUL that ends it. -/
theorem decodeTarget_before (h : decodeTarget s i = .ok (s', q)) (he : s[e]? = some 0)
    (he' : s[e + 1]? = some 0) (hi : i ≤ e + 1) :
    (∀ j, q = some j → j ≤ e) ∧ s'[e]? = some 0 := by
  rw [decodeTarget] at h
  obtain ⟨⟨s₁, query⟩, hsplit, h⟩ := bind_eq_ok.mp h
  obtain ⟨hbefore, hnul⟩ := splitUri_before hsplit he he' hi (by simp)
  obtain ⟨s₂, huri, h⟩ := bind_eq_ok.mp h
  obtain ⟨s₃, hquery, h⟩ := bind_eq_ok.mp h
  obtain ⟨rfl, rfl⟩ := Prod.mk.inj (Except.ok.inj h)
  exact ⟨hbefore, decodeAt_nul hquery (decodeAt_nul huri hnul)⟩

end Pointer

-- ════════════════════════════════════════════════════════════════════════
-- Requests
-- ════════════════════════════════════════════════════════════════════════

section Requests

variable {d : TstData} {req : RequestInfo} {routes : List (List UInt8)} {r : HttpResult}

/-- The size of a buffer, and where and how much it is to receive, but for the counters. -/
structure SameSize (d d' : TstData) : Prop where
  sLen : d'.sLen = d.sLen
  length : d'.s.length = d.s.length
  checkedLen : d'.checkedLen = d.checkedLen

theorem SameSize.trans {d₁ d₂ d₃ : TstData} (h : SameSize d₁ d₂) (h' : SameSize d₂ d₃) :
    SameSize d₁ d₃ :=
  ⟨h'.sLen.trans h.sLen, h'.length.trans h.length, h'.checkedLen.trans h.checkedLen⟩

theorem closeMessage_size {d' : TstData} (h : closeMessage d = .ok d') : SameSize d d' := by
  rw [closeMessage] at h
  obtain ⟨s', hs', h⟩ := bind_eq_ok.mp h
  obtain rfl := Except.ok.inj h
  exact ⟨rfl, store_length hs', rfl⟩

theorem httpRequest_size (h : httpRequest d req routes = .ok r) : SameSize d r.recv := by
  rw [httpRequest] at h
  obtain ⟨key, -, h⟩ := bind_eq_ok.mp h
  cases key with
  | none =>
    obtain ⟨outcome, -, h⟩ := bind_eq_ok.mp h
    obtain rfl := Except.ok.inj h
    exact ⟨rfl, rfl, rfl⟩
  | some key =>
    obtain ⟨i, -, h⟩ := bind_eq_ok.mp h
    obtain ⟨version, -, h⟩ := bind_eq_ok.mp h
    obtain rfl := Except.ok.inj h
    exact ⟨rfl, rfl, rfl⟩

theorem httpBody_size (h : httpBody d req routes = .ok r) : SameSize d r.recv := by
  rw [httpBody] at h
  obtain ⟨d', hd', h⟩ := bind_eq_ok.mp h
  exact (closeMessage_size hd').trans (httpRequest_size h)

theorem httpMessage_size (h : httpMessage d routes = .ok r) : SameSize d r.recv := by
  rw [httpMessage] at h
  obtain ⟨d', hd', h⟩ := bind_eq_ok.mp h
  obtain ⟨p, hp, h⟩ := bind_eq_ok.mp h
  have hparsed : SameSize d { d' with s := p.s } :=
    (closeMessage_size hd').trans ⟨rfl, parseRequest_length hp, rfl⟩
  split at h
  · obtain rfl := Except.ok.inj h
    exact hparsed
  · obtain ⟨length, -, h⟩ := bind_eq_ok.mp h
    split at h
    · exact hparsed.trans (httpRequest_size h)
    · split at h
      · obtain rfl := Except.ok.inj h
        exact hparsed
      · obtain rfl := Except.ok.inj h
        exact ⟨hparsed.sLen, hparsed.length, hparsed.checkedLen⟩

/-- The result with another count. -/
def HttpResult.counted (r : HttpResult) (c : UInt32) : HttpResult :=
  { r with recv := { r.recv with checkedLen := c } }

theorem closeMessage_counted (d : TstData) (c : UInt32) :
    closeMessage { d with checkedLen := c } =
      (closeMessage d).map fun d' => { d' with checkedLen := c } := by
  rw [closeMessage, closeMessage]
  cases hs : store d.s (d.reqPos + d.comLen).toNat 0 with
  | error f => rfl
  | ok s => rfl

theorem httpRequest_counted (d : TstData) (req : RequestInfo) (routes : List (List UInt8))
    (c : UInt32) : httpRequest { d with checkedLen := c } req routes =
      (httpRequest d req routes).map (HttpResult.counted · c) := by
  rw [httpRequest, httpRequest]
  cases upgradeKey d.s req with
  | error f => rfl
  | ok key =>
    cases key with
    | none =>
      simp only [ok_bind]
      cases checkRoute d.s req routes with
      | error f => rfl
      | ok outcome => rfl
    | some key =>
      simp only [ok_bind]
      cases deref req.httpVersion with
      | error f => rfl
      | ok i =>
        simp only [ok_bind]
        cases str d.s i with
        | error f => rfl
        | ok version => rfl

theorem httpMessage_counted (d : TstData) (routes : List (List UInt8)) (c : UInt32) :
    httpMessage { d with checkedLen := c } routes =
      (httpMessage d routes).map (HttpResult.counted · c) := by
  rw [httpMessage, httpMessage, closeMessage_counted]
  cases closeMessage d with
  | error f => rfl
  | ok d' =>
    simp only [Except.map, ok_bind]
    cases parseRequest d'.s d'.comLen.toNat with
    | error f => rfl
    | ok p =>
      simp only [ok_bind]
      split
      · rfl
      · cases contentLength p.s p.req with
        | error f => rfl
        | ok length =>
          simp only [ok_bind]
          split
          · exact httpRequest_counted { d' with s := p.s } p.req routes c
          · by_cases hlarge : tooLarge { d' with s := p.s } length
            · rw [if_pos (show tooLarge { d' with s := p.s, checkedLen := c } length from hlarge),
                if_pos hlarge]
              rfl
            · rw [if_neg (show ¬ tooLarge { d' with s := p.s, checkedLen := c } length from hlarge),
                if_neg hlarge]
              rfl

end Requests

end Tst
