import Tst.Http.Target

/-!
# Requests that are sent

A client renders a request as a request line, one line for each header with any number of
spaces behind the `:`, and an empty line. The parser takes exactly one byte behind the `:`
away.

## Main definitions

- `SentHeader`, `SentRequest` — what a client sends
- `SentRequest.render` — the bytes
- `Recovered` — the parser has found what was sent

## Main results

- `recovered_iff` — when it has
-/

namespace Tst

open CString

/-- A character of a token. -/
def isTokenChar (b : UInt8) : Bool :=
  (48 ≤ b && b ≤ 57) || (65 ≤ b && b ≤ 90) || (97 ≤ b && b ≤ 122) ||
    b ∈ [33, 35, 36, 37, 38, 39, 42, 43, 45, 46, 94, 95, 96, 124, 126]

/-- A control character. -/
def isControl (b : UInt8) : Bool := b < 32 || b = 127

/-- A blank. -/
def isBlank (b : UInt8) : Bool := b = 32 || b = 9

/-- A header, and the number of spaces behind its `:`. -/
structure SentHeader where
  name : List UInt8
  gap : Nat
  value : List UInt8
  nameOk : name ≠ [] ∧ ∀ b ∈ name, isTokenChar b = true
  valueOk : ∀ b ∈ value, b ≠ 13 ∧ b ≠ 10 ∧ b ≠ 0
  trimmed : (∀ b ∈ value.head?, isBlank b = false) ∧ ∀ b ∈ value.getLast?, isBlank b = false

/-- A request with up to 30 headers. -/
structure SentRequest where
  method : List UInt8
  target : List UInt8
  version : List UInt8
  headers : List SentHeader
  methodOk : method ≠ [] ∧ ∀ b ∈ method, b ≠ 32 ∧ b ≠ 13 ∧ b ≠ 10 ∧ b ≠ 0
  targetOk : target ≠ [] ∧ ∀ b ∈ target, b ≠ 32 ∧ isControl b = false ∧ b ≠ 37
  versionOk : version = text10 ∨ version = text11
  headersOk : headers.length ≤ httpMaxHeaders

/-- A header line, without its CR LF. -/
def SentHeader.line (header : SentHeader) : List UInt8 :=
  header.name ++ 58 :: (List.replicate header.gap 32 ++ header.value)

/-- The header lines and the empty line. -/
def renderHeaders (headers : List SentHeader) : List UInt8 :=
  headers.flatMap (fun header => header.line ++ [13, 10]) ++ [13, 10]

/-- The bytes of a request. -/
def SentRequest.render (r : SentRequest) : List UInt8 :=
  r.method ++ 32 :: (r.target ++ 32 ::
    (textHttp ++ r.version ++ 13 :: 10 :: renderHeaders r.headers))

/-- The parser has found what was sent. -/
structure Recovered (p : Parse) (r : SentRequest) : Prop where
  method : ∃ i, p.req.requestMethod = some i ∧ str p.s i = .ok r.method
  uri : uriString p = .ok (r.target.takeWhile (· ≠ 63))
  query : queryString p = .ok ((r.target.dropWhile (· ≠ 63)).drop 1)
  version : ∃ i, p.req.httpVersion = some i ∧ str p.s i = .ok r.version
  headers : List.Forall₂ (Denotes p.s) p.req.httpHeaders
    (r.headers.map fun header => ⟨header.name, some header.value⟩)

-- ════════════════════════════════════════════════════════════════════════
-- The lines
-- ════════════════════════════════════════════════════════════════════════

section Lines

theorem SentHeader.not_mem_name (header : SentHeader) {b : UInt8} (hb : isTokenChar b = false) :
    b ∉ header.name := by
  intro hin
  rw [header.nameOk.2 b hin] at hb
  exact absurd hb (by decide)

theorem SentHeader.cons_name (header : SentHeader) :
    ∃ b x, header.name = b :: x ∧ b ≠ 0 ∧ b ≠ 58 ∧ ∀ c, isTokenChar c = false → c ∉ x := by
  cases hname : header.name with
  | nil => exact absurd hname header.nameOk.1
  | cons b x =>
    have hno : ∀ c, isTokenChar c = false → c ∉ b :: x := fun c hc => by
      rw [← hname]
      exact header.not_mem_name hc
    exact ⟨b, x, rfl, fun h => hno 0 rfl (h ▸ List.mem_cons_self ..),
      fun h => hno 58 rfl (h ▸ List.mem_cons_self ..),
      fun c hc hin => hno c hc (List.mem_cons_of_mem _ hin)⟩

/-- A byte that is in neither the name nor the value is not in the line. -/
theorem not_mem_line {b : UInt8} (x : List UInt8) (header : SentHeader) (hx : b ∉ x)
    (hvalue : b ∉ header.value) (hb : b ≠ 58 ∧ b ≠ 32) :
    b ∉ x ++ 58 :: (List.replicate header.gap 32 ++ header.value) := by
  intro hin
  rcases List.mem_append.mp hin with hin | hin
  · exact hx hin
  · rcases List.mem_cons.mp hin with h58 | hin
    · exact hb.1 h58
    · rcases List.mem_append.mp hin with hin | hin
      · exact hb.2 (List.eq_of_mem_replicate hin)
      · exact hvalue hin

theorem SentHeader.isLine (header : SentHeader) : IsLine header.line := by
  obtain ⟨b, x, hname, hb, -, hx⟩ := header.cons_name
  refine ⟨b, x ++ 58 :: (List.replicate header.gap 32 ++ header.value), ?_, hb, ?_, ?_⟩
  · rw [SentHeader.line, hname]
    rfl
  · exact not_mem_line _ header (hx 13 rfl) (fun h => (header.valueOk 13 h).1 rfl) (by decide)
  · exact not_mem_line _ header (hx 0 rfl) (fun h => (header.valueOk 0 h).2.2 rfl) (by decide)

/-- The field of a line: one byte behind the `:` is lost. -/
theorem SentHeader.fieldOf_line (header : SentHeader) :
    fieldOf header.line =
      ⟨header.name, some ((List.replicate header.gap 32 ++ header.value).drop 1)⟩ := by
  obtain ⟨b, x, hname, -, -, hx⟩ := header.cons_name
  have hcut : cutAt 58 (x ++ 58 :: (List.replicate header.gap 32 ++ header.value)) =
      some (x, List.replicate header.gap 32 ++ header.value) :=
    (cutAt_eq_some (by decide)).mpr ⟨rfl, hx 58 rfl, hx 0 rfl⟩
  rw [SentHeader.line, hname, List.cons_append, fieldOf, hcut]

/-- The header lines of a block that was sent. -/
theorem headerLines_render (headers : List SentHeader) {fuel : Nat}
    (hfuel : headers.length < fuel) :
    headerLines fuel (renderHeaders headers) = headers.map SentHeader.line := by
  induction headers generalizing fuel with
  | nil =>
    obtain ⟨fuel, rfl⟩ := Nat.exists_eq_succ_of_ne_zero (Nat.ne_of_gt hfuel)
    rfl
  | cons header headers ih =>
    obtain ⟨fuel, rfl⟩ := Nat.exists_eq_succ_of_ne_zero (Nat.ne_of_gt (Nat.zero_lt_of_lt hfuel))
    obtain ⟨b, x, hline, hb, h13, h0⟩ := header.isLine
    have hbytes : renderHeaders (header :: headers) =
        b :: (x ++ 13 :: (10 :: renderHeaders headers)) := by
      simp [renderHeaders, hline]
    have hcut : cutAt 13 (x ++ 13 :: (10 :: renderHeaders headers)) =
        some (x, 10 :: renderHeaders headers) := (cutAt_eq_some (by decide)).mpr ⟨rfl, h13, h0⟩
    rw [hbytes, headerLines, if_neg hb, hcut, List.map_cons, hline]
    simp only [List.drop_succ_cons, List.drop_zero]
    rw [ih (Nat.lt_of_succ_lt_succ hfuel)]

end Lines

-- ════════════════════════════════════════════════════════════════════════
-- The request line
-- ════════════════════════════════════════════════════════════════════════

namespace SentRequest

variable (r : SentRequest)

theorem readLine_render : readLine r.render =
    .full r.method r.target r.version [] (renderHeaders r.headers) := by
  have hmethod : cutAt 32 r.render = some (r.method, r.target ++ 32 ::
      (textHttp ++ r.version ++ 13 :: 10 :: renderHeaders r.headers)) :=
    (cutAt_eq_some (by decide)).mpr
      ⟨rfl, fun h => (r.methodOk.2 32 h).1 rfl, fun h => (r.methodOk.2 0 h).2.2.2 rfl⟩
  have htarget : cutAt 32 (r.target ++ 32 ::
      (textHttp ++ r.version ++ 13 :: 10 :: renderHeaders r.headers)) =
        some (r.target, textHttp ++ r.version ++ 13 :: 10 :: renderHeaders r.headers) :=
    (cutAt_eq_some (by decide)).mpr ⟨rfl, fun h => (r.targetOk.2 32 h).1 rfl,
      fun h => absurd (r.targetOk.2 0 h).2.1 (by decide)⟩
  rw [readLine, hmethod]
  simp only [htarget]
  rcases r.versionOk with hver | hver
  · rw [hver]
    rfl
  · rw [hver]
    rfl

theorem headerEnd_render : headerEnd <:+ r.render := by
  have hheaders : ∀ headers : List SentHeader,
      headerEnd <:+ 13 :: 10 :: renderHeaders headers := by
    intro headers
    rcases List.eq_nil_or_concat headers with rfl | ⟨init, last, rfl⟩
    · exact List.suffix_refl _
    · refine ⟨13 :: 10 :: ((init.flatMap fun header => header.line ++ [13, 10]) ++ last.line), ?_⟩
      simp [renderHeaders, headerEnd]
  refine (hheaders r.headers).trans
    ⟨r.method ++ 32 :: (r.target ++ 32 :: (textHttp ++ r.version)), ?_⟩
  simp [render]

/-- What the parser finds behind the `:` of each header. -/
def seen : List Field :=
  r.headers.map fun header =>
    ⟨header.name, some ((List.replicate header.gap 32 ++ header.value).drop 1)⟩

theorem lines_render : headerLines (renderHeaders r.headers).length (renderHeaders r.headers) =
    r.headers.map SentHeader.line := by
  refine headerLines_render r.headers ?_
  have hlen : ∀ headers : List SentHeader, headers.length < (renderHeaders headers).length := by
    intro headers
    induction headers with
    | nil => decide
    | cons header headers ih =>
      simp only [renderHeaders, List.flatMap_cons, List.length_append, List.length_cons,
        List.length_nil] at ih ⊢
      omega
  exact hlen r.headers

theorem fields_render : fields r.target [] (r.headers.map SentHeader.line) = r.seen := by
  rw [fields, List.map_map, seen]
  cases r.headers with
  | nil => rfl
  | cons header headers =>
    have hsettle : settle (10 :: header.name) = 10 :: header.name := by
      refine settle_of_noQuery fun h => ?_
      rcases List.mem_cons.mp h with h | h
      · exact absurd h (by decide)
      · exact header.not_mem_name rfl h
    have hname : firstName r.target [] header.name = header.name := by
      rw [firstName, List.nil_append, hsettle]
      split
      · rfl
      · exact cstr_of_noNul (header.not_mem_name rfl)
    have hfield : fieldOf ∘ SentHeader.line = fun header : SentHeader =>
        (⟨header.name, some ((List.replicate header.gap 32 ++ header.value).drop 1)⟩ : Field) :=
      funext SentHeader.fieldOf_line
    simp only [List.map_cons, hfield, hname]

theorem noNul_target : 0 ∉ r.target := fun h => absurd (r.targetOk.2 0 h).2.1 (by decide)

theorem noPercent_target : 37 ∉ r.target := fun h => (r.targetOk.2 37 h).2.2 rfl

theorem uriText_render : uriText r.target = r.target.takeWhile (· ≠ 63) := by
  have hsub : ∀ b, b ∈ r.target.takeWhile (· ≠ 63) → b ∈ r.target :=
    fun b hb => (List.takeWhile_sublist _).subset hb
  rw [uriText, urlDecode_of_noPercent fun h => r.noPercent_target (hsub _ h),
    cstr_of_noNul fun h => r.noNul_target (hsub _ h)]

theorem blockQuery_render : blockQuery r.target [] (renderHeaders r.headers) =
    (r.target.dropWhile (· ≠ 63)).drop 1 := by
  rw [blockQuery]
  by_cases h63 : 63 ∈ r.target
  · rw [if_pos h63]
    have h0 := r.noNul_target
    have h37 := r.noPercent_target
    obtain ⟨x, y, hxy, hx⟩ := List.eq_append_cons_of_mem h63
    rw [hxy] at h0 h37 ⊢
    have hx0 : 0 ∉ x := fun h => h0 (List.mem_append_left _ h)
    have hy0 : 0 ∉ y := fun h => h0 (List.mem_append_right _ (List.mem_cons_of_mem _ h))
    have hy37 : 37 ∉ y := fun h => h37 (List.mem_append_right _ (List.mem_cons_of_mem _ h))
    have hpos : ∀ b ∈ x, decide (b ≠ 63) = true :=
      fun b hb => decide_eq_true fun hb63 => hx (hb63 ▸ hb)
    have hdrop : (x ++ 63 :: (y ++ [0, 0])).drop (x.length + 1) = y ++ [0, 0] := by
      rw [← List.drop_drop, List.drop_left]
      rfl
    have htail : (x ++ 63 :: y).dropWhile (· ≠ 63) = 63 :: y := by
      rw [List.dropWhile_append_of_pos hpos]
      simp
    rw [htail, queryText, List.append_assoc, List.cons_append, scan_cut hx0 hx]
    simp only [hdrop]
    rw [cstr_append hy0, urlDecode_of_noPercent hy37, cstr_of_noNul hy0]
    rfl
  · rw [if_neg h63]
    have hpos : ∀ b ∈ r.target, decide (b ≠ 63) = true :=
      fun b hb => decide_eq_true fun hb63 => h63 (hb63 ▸ hb)
    have htail : r.target.dropWhile (· ≠ 63) = [] := List.dropWhile_eq_nil_iff.mpr hpos
    rw [htail]
    refine queryText_of_noQuery ?_
    rw [behindVersion, r.lines_render]
    cases r.headers with
    | nil => decide
    | cons header headers =>
      simp only [List.map_cons, SentHeader.fieldOf_line, List.nil_append]
      intro h
      rcases List.mem_cons.mp h with h | h
      · exact absurd h (by decide)
      · exact header.not_mem_name rfl h

/-- The search for the query runs out of the buffer when there are no headers. -/
theorem overrun_render (sLen : Nat) : overrun sLen r.render r.target [] (renderHeaders r.headers) ↔
    r.render.length + 1 = sLen ∧ r.headers = [] ∧ 63 ∉ r.target := by
  rw [overrun, r.lines_render, List.map_eq_nil_iff]
  constructor
  · rintro ⟨hlen, hnil, -, h63, -⟩
    exact ⟨hlen, hnil, h63⟩
  · rintro ⟨hlen, hnil, h63⟩
    refine ⟨hlen, hnil, r.targetOk.1, h63, ?_⟩
    rw [hnil]
    decide

end SentRequest

-- ════════════════════════════════════════════════════════════════════════
-- What the parser recovers
-- ════════════════════════════════════════════════════════════════════════

/-- A header stands for one field. -/
theorem Denotes.unique {s : List UInt8} {header : HttpHeader} {f g : Field}
    (hf : Denotes s header f) (hg : Denotes s header g) : f = g := by
  obtain ⟨name, value⟩ := header
  obtain ⟨fname, fvalue⟩ := f
  obtain ⟨gname, gvalue⟩ := g
  have hname : fname = gname := Except.ok.inj (hf.name.symm.trans hg.name)
  have hfv : Option.Rel (fun p v => str s p = .ok v) value fvalue := hf.value
  have hgv : Option.Rel (fun p v => str s p = .ok v) value gvalue := hg.value
  rw [hname]
  congr 1
  cases hfv with
  | none =>
    cases hgv with
    | none => rfl
  | some hv =>
    cases hgv with
    | some hw => exact congrArg some (Except.ok.inj (hv.symm.trans hw))

theorem denotes_unique {s : List UInt8} {headers : List HttpHeader} {fs gs : List Field}
    (hf : List.Forall₂ (Denotes s) headers fs) (hg : List.Forall₂ (Denotes s) headers gs) :
    fs = gs := by
  induction hf generalizing gs with
  | nil =>
    cases hg with
    | nil => rfl
  | cons hd _ ih =>
    cases hg with
    | cons hd' hrest => rw [hd.unique hd', ih hrest]

/-- What a value loses with the byte behind the `:`. -/
theorem gap_drop_iff (header : SentHeader) :
    (List.replicate header.gap 32 ++ header.value).drop 1 = header.value ↔
      header.gap = 1 ∨ header.gap = 0 ∧ header.value = [] := by
  constructor
  · intro h
    have hlen := congrArg List.length h
    rw [List.length_drop, List.length_append, List.length_replicate] at hlen
    by_cases hgap : header.gap = 1
    · exact .inl hgap
    · exact .inr ⟨by omega, List.length_eq_zero_iff.mp (by omega)⟩
  · rintro (hgap | ⟨hgap, hvalue⟩)
    · rw [hgap]
      rfl
    · rw [hgap, hvalue]
      rfl

/-- A request is recovered exactly when one space is behind each `:` (none is needed before
an empty value) and it is not one without headers and query that fills the buffer. -/
theorem recovered_iff (r : SentRequest) {sLen : UInt32} (hlen : r.render.length < sLen.toNat) :
    (∃ p, parseRequest (r.render ++ 0 :: behind sLen r.render) r.render.length = .ok p ∧
        Recovered p r) ↔
      (∀ header ∈ r.headers, header.gap = 1 ∨ header.gap = 0 ∧ header.value = []) ∧
        ¬ (r.headers = [] ∧ 63 ∉ r.target ∧ r.render.length + 1 = sLen.toNat) := by
  have hzero : ∀ b ∈ behind sLen r.render, b = 0 := fun b hb => List.eq_of_mem_replicate hb
  have hlines : (headerLines (renderHeaders r.headers).length
      (renderHeaders r.headers)).length ≤ httpMaxHeaders := by
    rw [r.lines_render, List.length_map]
    exact r.headersOk
  have hover : overrun (r.render.length + 1 + (behind sLen r.render).length) r.render r.target []
      (renderHeaders r.headers) ↔
        r.headers = [] ∧ 63 ∉ r.target ∧ r.render.length + 1 = sLen.toNat := by
    rw [length_behind hlen, r.overrun_render]
    exact ⟨fun h => ⟨h.2.1, h.2.2, h.1⟩, fun h => ⟨h.2.2, h.1, h.2.1⟩⟩
  have hseen : r.seen = r.headers.map (fun header => ⟨header.name, some header.value⟩) ↔
      ∀ header ∈ r.headers, header.gap = 1 ∨ header.gap = 0 ∧ header.value = [] := by
    rw [SentRequest.seen, List.map_inj_left]
    refine forall₂_congr fun header _ => ?_
    rw [← gap_drop_iff header]
    simp only [Field.mk.injEq, true_and, Option.some.injEq]
  rw [← hover, ← hseen]
  constructor
  · rintro ⟨p, hp, hrec⟩
    have hno : ¬ overrun (r.render.length + 1 + (behind sLen r.render).length) r.render r.target []
        (renderHeaders r.headers) := by
      intro hover
      rw [parse_overrun r.headerEnd_render r.readLine_render hlines hover] at hp
      exact absurd hp (by simp)
    obtain ⟨p', hp', hparsed, -⟩ :=
      parse_full r.render.length r.headerEnd_render r.readLine_render hlines hzero hno
    obtain rfl := Except.ok.inj (hp.symm.trans hp')
    have hheaders := hparsed.headers
    rw [r.lines_render, r.fields_render] at hheaders
    exact ⟨denotes_unique hheaders hrec.headers, hno⟩
  · rintro ⟨hsame, hno⟩
    obtain ⟨p, hp, hparsed, hstrings⟩ :=
      parse_full r.render.length r.headerEnd_render r.readLine_render hlines hzero hno
    have hheaders := hparsed.headers
    rw [r.lines_render, r.fields_render, hsame] at hheaders
    have hs := hstrings r.targetOk.1
    exact ⟨p, hp, hparsed.method, by rw [hs.uriString, r.uriText_render],
      by rw [hs.queryString, r.blockQuery_render], hs.version, hheaders⟩

theorem get_ok : textGet ≠ [] ∧ ∀ b ∈ textGet, b ≠ 32 ∧ b ≠ 13 ∧ b ≠ 10 ∧ b ≠ 0 := by
  simp [textGet]

theorem root_ok : ([47] : List UInt8) ≠ [] ∧
    ∀ b ∈ ([47] : List UInt8), b ≠ 32 ∧ isControl b = false ∧ b ≠ 37 := by
  simp [isControl]

theorem name_ok : ([97] : List UInt8) ≠ [] ∧ ∀ b ∈ ([97] : List UInt8), isTokenChar b = true := by
  simp [isTokenChar]

theorem value_ok : ∀ b ∈ ([98] : List UInt8), b ≠ 13 ∧ b ≠ 10 ∧ b ≠ 0 := by
  simp

theorem value_trimmed : (∀ b ∈ ([98] : List UInt8).head?, isBlank b = false) ∧
    ∀ b ∈ ([98] : List UInt8).getLast?, isBlank b = false := by
  simp [isBlank]

/-- The header `a`, with the value `b` behind that many spaces. -/
def sentHeader (gap : Nat) : SentHeader := ⟨[97], gap, [98], name_ok, value_ok, value_trimmed⟩

/-- `GET /` with the header `a: b`. -/
def sentRoot : SentRequest where
  method := textGet
  target := [47]
  version := text11
  headers := [sentHeader 1]
  methodOk := get_ok
  targetOk := root_ok
  versionOk := .inr rfl
  headersOk := Nat.le_of_ble_eq_true rfl

theorem recovered_root :
    ∃ p, parseRequest (sentRoot.render ++ 0 :: behind 64 sentRoot.render) sentRoot.render.length =
      .ok p ∧ Recovered p sentRoot :=
  (recovered_iff sentRoot (by decide)).mpr (by decide)

/-- The same header without the space. -/
def sentTight : SentRequest where
  method := textGet
  target := [47]
  version := text11
  headers := [sentHeader 0]
  methodOk := get_ok
  targetOk := root_ok
  versionOk := .inr rfl
  headersOk := Nat.le_of_ble_eq_true rfl

/-- Its value loses its only byte. -/
theorem not_recovered_tight : sentTight.render.length < (64 : UInt32).toNat ∧ ∃ p,
    parseRequest (sentTight.render ++ 0 :: behind 64 sentTight.render) sentTight.render.length =
      .ok p ∧ getHttpheader p.s p.req.httpHeaders [97] = .ok (some []) :=
  ⟨by decide, _, rfl, rfl⟩

end Tst
