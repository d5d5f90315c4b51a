import Tst.Http.Parse

/-!
# Which header blocks are handled

`http()` on a header block stays within `s[0 .. s_len)` and the header table, dereferences
no NULL and comes to an end, or it does not, and `handled` says when.

## Main results

- `contentLength_lookup`, `httpRequest_ok_iff` — what follows the parser, by the fields of
  the block
- `httpMessage_ok_iff` — when `http()` handles a block
-/

namespace Tst

open CString

section Request

variable {p : Parse} {d : TstData} {method : List UInt8} {fs : List Field}

theorem contentLength_lookup (hp : Parsed p method fs) :
    contentLength p.s p.req = (deref (lookup fs textContentLength)).map atoi := by
  rw [contentLength, getHttpheader_lookup hp.headers, ok_bind]
  cases lookup fs textContentLength <;> rfl

/-- The method and route checks do not fault. -/
theorem checkRoute_ok (hp : Parsed p method fs) (routes : List (List UInt8)) :
    ∃ outcome, checkRoute p.s p.req routes = .ok outcome := by
  obtain ⟨i, hi, hmethod⟩ := hp.method
  obtain ⟨j, x, hj, huri⟩ := hp.uri
  rw [checkRoute, hi, hj]
  simp only [deref, ok_bind, hmethod, huri]
  split
  · split
    · exact ⟨_, rfl⟩
    · split
      · exact ⟨_, rfl⟩
      · exact ⟨_, rfl⟩
  · exact ⟨_, rfl⟩

/-- The headers of an upgrade, as `http()` looks them up. -/
theorem upgradeKey_lookup (hp : Parsed p method fs) :
    upgradeKey p.s p.req = if method = textOptions then .ok none else
      deref (lookup fs textConnection) >>= fun connection =>
        if connection ≠ textUpgrade then .ok none else
          deref (lookup fs textUpgrade) >>= fun upgrade =>
            if upgrade ≠ textWebsocket then .ok none
            else (deref (lookup fs textSecWebSocketKey)).map some := by
  obtain ⟨i, hi, hmethod⟩ := hp.method
  have hget := getHttpheader_lookup hp.headers
  rw [upgradeKey, hi]
  simp only [deref, ok_bind, hmethod, hget]
  by_cases hopt : method = textOptions
  · rw [if_pos hopt, if_pos hopt]
    rfl
  rw [if_neg hopt, if_neg hopt]
  cases hconn : lookup fs textConnection with
  | none => rfl
  | some connection =>
    simp only [ok_bind]
    by_cases hup : connection = textUpgrade
    · subst hup
      cases lookup fs textSecWebSocketKey <;> rfl
    · rw [if_pos hup, if_pos hup]
      rfl

/-- The lookups succeed when the headers have values. -/
theorem upgradeKey_ok_iff (hp : Parsed p method fs) :
    (∃ key, upgradeKey p.s p.req = .ok key) ↔ (method ≠ textOptions → upgradeOk fs) := by
  rw [upgradeKey_lookup hp]
  by_cases hopt : method = textOptions
  · rw [if_pos hopt]
    exact ⟨fun _ h => absurd hopt h, fun _ => ⟨none, rfl⟩⟩
  rw [if_neg hopt, upgradeOk]
  cases hconn : lookup fs textConnection with
  | none => simp [deref, hopt]
  | some connection =>
    by_cases hup : connection = textUpgrade
    · cases hupgrade : lookup fs textUpgrade with
      | none => simp [deref, hup, hopt]
      | some upgrade =>
        by_cases hweb : upgrade = textWebsocket
        · cases hkey : lookup fs textSecWebSocketKey with
          | none => simp [deref, hup, hweb, hopt, Except.map]
          | some key => simp [deref, hup, hweb, hopt, Except.map]
        · simp [deref, hup, hweb, hopt]
    · simp [deref, hup, hopt]

/-- Without headers there is no key. -/
theorem fields_of_upgradeKey {key : List UInt8} (hp : Parsed p method fs)
    (hkey : upgradeKey p.s p.req = .ok (some key)) : fs ≠ [] := by
  rintro rfl
  rw [upgradeKey_lookup hp] at hkey
  split at hkey
  · exact nomatch hkey
  · exact nomatch hkey

theorem httpRequest_ok_iff (hp : Parsed p method fs) (hd : d.s = p.s)
    (routes : List (List UInt8)) :
    (∃ r, httpRequest d p.req routes = .ok r) ↔ (method ≠ textOptions → upgradeOk fs) := by
  rw [← upgradeKey_ok_iff hp, httpRequest, hd]
  cases hkey : upgradeKey p.s p.req with
  | error e => simp only [error_bind, reduceCtorEq, exists_false]
  | ok key =>
    refine iff_of_true ?_ ⟨key, rfl⟩
    cases key with
    | none =>
      obtain ⟨outcome, houtcome⟩ := checkRoute_ok hp routes
      exact ⟨⟨d, p.req, outcome⟩, by simp [houtcome, pure, Except.pure]⟩
    | some key =>
      obtain ⟨i, x, hi, hx⟩ := hp.version (fields_of_upgradeKey hp hkey)
      exact ⟨⟨d, p.req, .upgrade x key⟩, by simp [hi, deref, hx, pure, Except.pure]⟩

end Request

section Message

variable {h method : List UInt8} {sLen : UInt32} {fs : List Field} {p : Parse}
  {routes : List (List UInt8)}

/-- Without headers every lookup finds the empty string. -/
theorem lookupsOk_nil (method : List UInt8) : lookupsOk method [] := by
  refine ⟨[], rfl, fun _ _ => ⟨[], rfl, fun h => ?_⟩⟩
  exact absurd h (by decide)

/-- What is behind a block in the buffer. -/
def behind (sLen : UInt32) (h : List UInt8) : List UInt8 :=
  List.replicate (sLen.toNat - h.length - 1) 0

theorem closeMessage_holding (hlen : h.length < sLen.toNat) :
    closeMessage (holding sLen h) =
      .ok { holding sLen h with s := h ++ 0 :: behind sLen h } := by
  have hroom : sLen.toNat - h.length = (sLen.toNat - h.length - 1) + 1 := by omega
  have hs : (holding sLen h).s = h ++ 0 :: behind sLen h := by
    rw [holding, hroom, List.replicate_succ]
    rfl
  have hi : ((holding sLen h).reqPos + (holding sLen h).comLen).toNat = h.length := by
    have hlt := sLen.toNat_lt
    simp only [holding, UInt32.zero_add, UInt32.toNat_ofNat']
    omega
  rw [closeMessage, store_at hs hi]
  rfl

theorem length_behind (hlen : h.length < sLen.toNat) :
    h.length + 1 + (behind sLen h).length = sLen.toNat := by
  rw [behind, List.length_replicate]
  omega

/-- What follows the parser. -/
theorem message_ok_iff (hp : Parsed p method fs)
    (hparse : parseRequest (h ++ 0 :: behind sLen h) h.length = .ok p)
    (hlen : h.length < sLen.toNat) :
    (∃ r, httpMessage (holding sLen h) routes = .ok r) ↔ lookupsOk method fs := by
  rw [httpMessage, closeMessage_holding hlen, ok_bind, comLen_holding hlen, hparse, ok_bind,
    if_neg (by rw [hp.supported]; exact Bool.false_ne_true), contentLength_lookup hp, lookupsOk]
  cases lookup fs textContentLength with
  | none => simp [deref, Except.map]
  | some length =>
    simp only [deref, Except.map, ok_bind, Option.some.injEq, exists_eq_left']
    by_cases hzero : atoi length = 0
    · rw [if_pos hzero, httpRequest_ok_iff hp rfl]
      exact ⟨fun h _ => h, fun h => h hzero⟩
    · rw [if_neg hzero]
      refine iff_of_true ?_ fun h => absurd h hzero
      split
      · exact ⟨_, rfl⟩
      · exact ⟨_, rfl⟩

/-- A parser that faults. -/
theorem message_error {e : Fault}
    (hparse : parseRequest (h ++ 0 :: behind sLen h) h.length = .error e)
    (hlen : h.length < sLen.toNat) : httpMessage (holding sLen h) routes = .error e := by
  rw [httpMessage, closeMessage_holding hlen, ok_bind, comLen_holding hlen, hparse, error_bind]

/-- When `http()` handles a block. -/
theorem httpMessage_ok_iff (hlen : h.length < sLen.toNat) (hend : headerEnd <:+ h) :
    (∃ r, httpMessage (holding sLen h) routes = .ok r) ↔ handled sLen.toNat h := by
  have hfault : ∀ e, parseRequest (h ++ 0 :: behind sLen h) h.length = .error e →
      ¬ ∃ r, httpMessage (holding sLen h) routes = .ok r := by
    rintro e hparse ⟨r, hr⟩
    rw [message_error hparse hlen] at hr
    exact nomatch hr
  have hzero : ∀ b ∈ behind sLen h, b = 0 := fun b hb => List.eq_of_mem_replicate hb
  rw [handled]
  cases hline : readLine h with
  | incomplete => exact iff_of_false (hfault _ (parse_incomplete hline)) id
  | bare method target =>
    obtain ⟨p, hparse, hp⟩ := parse_bare h.length hline hzero
    exact iff_of_true ((message_ok_iff hp hparse hlen).mpr (lookupsOk_nil method)) trivial
  | unsupported =>
    obtain ⟨p, hparse, hunsupported⟩ := parse_unsupported (behind sLen h) h.length hend hline
    refine iff_of_true ?_ trivial
    rw [httpMessage, closeMessage_holding hlen, ok_bind, comLen_holding hlen, hparse, ok_bind,
      if_pos hunsupported]
    exact ⟨_, rfl⟩
  | full method target version junk rest =>
    have hfill := length_behind hlen
    by_cases hlines : (headerLines rest.length rest).length ≤ httpMaxHeaders
    · by_cases hover : overrun sLen.toNat h target junk rest
      · refine iff_of_false (hfault .bounds (parse_overrun hend hline hlines ?_)) fun h => h.2.1 hover
        rwa [hfill]
      · obtain ⟨p, hparse, hp, -⟩ := parse_full h.length hend hline hlines hzero (by rwa [hfill])
        rw [message_ok_iff hp hparse hlen]
        exact ⟨fun h => ⟨hlines, hover, h⟩, fun h => h.2.2⟩
    · exact iff_of_false (hfault .table (parse_table hend hline (Nat.lt_of_not_le hlines)))
        fun h => hlines h.1

/-- A request without headers is handled. -/
theorem httpMessage_ok_request :
    ∃ r, httpMessage (holding 4096
      [71, 69, 84, 32, 47, 32, 72, 84, 84, 80, 47, 49, 46, 49, 13, 10, 13, 10]) [] = .ok r := by
  refine (httpMessage_ok_iff (by decide) (by decide)).mpr ?_
  exact ⟨by decide, by decide, [], rfl, fun _ _ => ⟨[], rfl, fun h => absurd h (by decide)⟩⟩

/-- An empty line alone has no URI. -/
theorem httpMessage_null : headerEnd.length < (4096 : UInt32).toNat ∧ headerEnd <:+ headerEnd ∧
    httpMessage (holding 4096 headerEnd) [] = .error .null :=
  ⟨by decide, List.suffix_refl _, message_error (parse_incomplete rfl) (by decide)⟩

end Message

end Tst
