import Tst.Http.Headers
import Tst.Http.Line
import Tst.Http.Query

/-!
# The parser and the block

`parseRequest` edits the buffer through pointers; `readLine`, `headerLines` and `fields` say
what the block holds. This module puts the parts of the parser together.

## Main definitions

- `Parsed` — the pointers of a request denote the strings of its block

## Main results

- `parse_incomplete`, `parse_table`, `parse_overrun` — when the parser faults
- `parse_unsupported`, `parse_bare`, `parse_full` — what it leaves otherwise
-/

namespace Tst

open CString

/-- The pointers of a request denote its method and the fields of its block, and the other
ones denote strings. -/
structure Parsed (p : Parse) (method : List UInt8) (fs : List Field) : Prop where
  supported : p.unsupported = false
  method : ∃ i, p.req.requestMethod = some i ∧ str p.s i = .ok method
  uri : ∃ i x, p.req.requestUri = some i ∧ str p.s i = .ok x
  version : fs ≠ [] → ∃ i x, p.req.httpVersion = some i ∧ str p.s i = .ok x
  headers : List.Forall₂ (Denotes p.s) p.req.httpHeaders fs

section Blocks

variable {h z method target version junk rest r r' : List UInt8} {body : Nat}

/-- How a request line is read. -/
theorem readLine_cases (h : List UInt8) :
    readLine h = .incomplete ∨ ∃ method target r r', cutAt 32 h = some (method, r') ∧
      cutAt 32 r' = some (target, r) ∧ readLine h =
        if r.head? = some 0 then .bare method target
        else if beginsVersion r then
          .full method target ((r.drop 5).take 3) ((r.drop 9).takeWhile (· ≠ 10))
            (((r.drop 9).dropWhile (· ≠ 10)).drop 1)
        else .unsupported := by
  cases hmethod : cutAt 32 h with
  | none => exact .inl (by simp [readLine, hmethod])
  | some p =>
    obtain ⟨method, r'⟩ := p
    cases htarget : cutAt 32 r' with
    | none => exact .inl (by simp [readLine, hmethod, htarget])
    | some p =>
      obtain ⟨target, r⟩ := p
      exact .inr ⟨method, target, r, r', rfl, htarget, by simp [readLine, hmethod, htarget]⟩

/-- Both spaces are before the end of the block. -/
theorem headerEnd_line (hend : headerEnd <:+ h) (hmethod : cutAt 32 h = some (method, r'))
    (htarget : cutAt 32 r' = some (target, r)) : headerEnd <:+ r := by
  obtain ⟨rfl, -⟩ := (cutAt_eq_some (by decide)).mp hmethod
  obtain ⟨rfl, -⟩ := (cutAt_eq_some (by decide)).mp htarget
  exact headerEnd_tail (headerEnd_tail hend (by decide)) (by decide)

theorem parse_incomplete (hline : readLine h = .incomplete) :
    parseRequest (h ++ 0 :: z) body = .error .null := by
  obtain ⟨p, hp, hsupported, huri, hload⟩ := requestLine_incomplete z body hline
  have hheaders : parseHeaders (p.s.length + 1) p.s p.url [] = .ok (p.s, []) := by
    rw [parseHeaders, hload, ok_bind, if_pos rfl]
    rfl
  rw [parseRequest, hp, ok_bind, if_neg (by rw [hsupported]; exact Bool.false_ne_true), hheaders]
  simp only [ok_bind, huri, deref, error_bind]

theorem parse_unsupported (z : List UInt8) (body : Nat) (hend : headerEnd <:+ h)
    (hline : readLine h = .unsupported) :
    ∃ p, parseRequest (h ++ 0 :: z) body = .ok p ∧ p.unsupported = true := by
  rcases readLine_cases h with hinc | ⟨method, target, r, r', hmethod, htarget, hread⟩
  · rw [hline] at hinc
    exact nomatch hinc
  · rw [hline] at hread
    have hnul : r.head? ≠ some 0 := fun h0 => by rw [if_pos h0] at hread; exact nomatch hread
    rw [if_neg hnul] at hread
    have hv : ¬ beginsVersion r := fun hv => by rw [if_pos hv] at hread; exact nomatch hread
    have hs : method ++ 0 :: (target ++ 0 :: (r ++ 0 :: z)) =
        (method ++ 0 :: (target ++ [0])) ++ (r ++ 0 :: z) := by simp
    have hi : method.length + 1 + target.length + 1 = (method ++ 0 :: (target ++ [0])).length := by
      simp only [List.length_append, List.length_cons, List.length_nil]
      omega
    have hversion := requestVersion_unsupported
      { bodyString := body, requestMethod := some 0, requestUri := some (method.length + 1) }
      hs hi (headerEnd_line hend hmethod htarget) hnul hv
    obtain ⟨p, hp, hunsupported⟩ : ∃ p, requestVersion _ _ _ = .ok p ∧ p.unsupported = true :=
      ⟨_, hversion, rfl⟩
    refine ⟨p, ?_, hunsupported⟩
    rw [parseRequest, requestLine_complete hmethod htarget, hp, ok_bind, if_pos hunsupported]
    rfl

/-- The parts of the parser, one after the other. -/
theorem parse_parts {s s₁ s₂ : List UInt8} {p : Parse} {headers : List HttpHeader} {i : Nat}
    {q : Option Nat} (hline : requestLine s body = .ok p) (hsupported : p.unsupported = false)
    (hheaders : parseHeaders (p.s.length + 1) p.s p.url [] = .ok (s₁, headers))
    (huri : p.req.requestUri = some i) (htarget : decodeTarget s₁ i = .ok (s₂, q)) :
    parseRequest s body = .ok { p with
      s := s₂, req := { p.req with httpHeaders := headers, queryString := q } } := by
  rw [parseRequest, hline, ok_bind, if_neg (by rw [hsupported]; exact Bool.false_ne_true),
    hheaders]
  simp only [ok_bind, huri, deref, htarget]
  rfl

/-- The method is at the start of the buffer. -/
theorem str_method {v : List UInt8} (h0 : 0 ∉ method) :
    str ((method ++ [0]) ++ v) 0 = .ok method := by
  have hs : (method ++ [0]) ++ v = [] ++ (method ++ 0 :: v) := by simp
  exact (str_at hs rfl (by simp)).trans (congrArg Except.ok (cstr_append h0))

/-- A buffer that ends with NULs. -/
theorem getLast_zeros {x : List UInt8} (hzero : ∀ b ∈ z, b = 0) :
    (x ++ 0 :: z).getLast? = some 0 := by
  have hne : (0 : UInt8) :: z ≠ [] := List.cons_ne_nil _ _
  have hlast : ((0 : UInt8) :: z).getLast hne = 0 := by
    rcases List.mem_cons.mp (List.getLast_mem hne) with h | h
    · exact h
    · exact hzero _ h
  rw [List.getLast?_append, List.getLast?_eq_some_getLast hne, hlast]
  rfl

/-- A NUL behind the second space: there are no headers. -/
theorem parse_bare (body : Nat) (hline : readLine h = .bare method target)
    (hzero : ∀ b ∈ z, b = 0) :
    ∃ p, parseRequest (h ++ 0 :: z) body = .ok p ∧ Parsed p method [] := by
  rcases readLine_cases h with hinc | ⟨m, t, r, r', hmethod, htarget, hread⟩
  · rw [hline] at hinc
    exact nomatch hinc
  · rw [hline] at hread
    have hnul : r.head? = some 0 := by
      by_contra hnul
      rw [if_neg hnul] at hread
      split at hread <;> exact nomatch hread
    rw [if_pos hnul] at hread
    injection hread with hm ht
    subst hm ht
    have hm0 := ((cutAt_eq_some (by decide)).mp hmethod).2.2
    have hs : method ++ 0 :: (target ++ 0 :: (r ++ 0 :: z)) =
        (method ++ 0 :: (target ++ [0])) ++ (r ++ 0 :: z) := by simp
    have hi : method.length + 1 + target.length + 1 = (method ++ 0 :: (target ++ [0])).length := by
      simp only [List.length_append, List.length_cons, List.length_nil]
      omega
    obtain ⟨hversion, hload⟩ := requestVersion_bare
      { bodyString := body, requestMethod := some 0, requestUri := some (method.length + 1) }
      hs hi hnul
    -- the two NULs end the search for the query
    obtain ⟨v', hv'⟩ : ∃ v', settled (target ++ 0 :: (r ++ 0 :: z)) = some v' := by
      obtain ⟨r', rfl⟩ := List.head?_eq_some_iff.mp hnul
      refine settled_some ?_
      rw [List.cons_append, scan_pair]
      exact scan_ends target
    have hlast : (target ++ 0 :: (r ++ 0 :: z)).getLast? = some 0 := by
      rw [← List.cons_append, ← List.append_assoc]
      exact getLast_zeros hzero
    have hsplit : method ++ 0 :: (target ++ 0 :: (r ++ 0 :: z)) =
        (method ++ [0]) ++ (target ++ 0 :: (r ++ 0 :: z)) := by simp
    have htail := decodeTarget_settled (i := method.length + 1) hsplit (by simp) hlast
    rw [hv'] at htail
    obtain ⟨q, hq, -⟩ := htail
    have hheaders : parseHeaders ((method ++ 0 :: (target ++ 0 :: (r ++ 0 :: z))).length + 1)
        (method ++ 0 :: (target ++ 0 :: (r ++ 0 :: z))) (method.length + 1 + target.length + 1) [] =
          .ok (method ++ 0 :: (target ++ 0 :: (r ++ 0 :: z)), []) := by
      rw [parseHeaders, hload, ok_bind, if_pos rfl]
      rfl
    refine ⟨_, parse_parts ((requestLine_complete hmethod htarget).trans hversion) rfl hheaders rfl
      hq, rfl, ⟨0, rfl, str_method hm0⟩,
      ⟨_, _, rfl, str_at rfl (by simp) (settled_nul (by simp) hv')⟩, fun h => absurd rfl h, .nil⟩

-- ════════════════════════════════════════════════════════════════════════
-- With a supported version
-- ════════════════════════════════════════════════════════════════════════

/-- What the parser leaves of a request line with a supported version. -/
def cutLine (method target version junk : List UInt8) : List UInt8 :=
  method ++ 0 :: (target ++ 0 :: (textHttp ++ version ++ 0 :: (junk ++ [10])))

/-- The parser behind such a request line. -/
def afterLine (method target version junk : List UInt8) (body : Nat) (r : List UInt8) : Parse where
  s := cutLine method target version junk ++ r
  url := (cutLine method target version junk).length
  req :=
    { requestMethod := some 0
      requestUri := some (method.length + 1)
      httpVersion := some (method.length + 1 + target.length + 1 + 5)
      bodyString := body }

theorem requestLine_full (z : List UInt8) (body : Nat) (hend : headerEnd <:+ h)
    (hline : readLine h = .full method target version junk rest) :
    requestLine (h ++ 0 :: z) body =
        .ok (afterLine method target version junk body (rest ++ 0 :: z)) ∧
      0 ∉ method ∧ 0 ∉ target ∧ (version = text10 ∨ version = text11) ∧
      rest.getLast? ≠ some 13 := by
  rcases readLine_cases h with hinc | ⟨m, t, r, r', hmethod, htarget, hread⟩
  · rw [hline] at hinc
    exact nomatch hinc
  · rw [hline] at hread
    have hnul : r.head? ≠ some 0 := fun h0 => by rw [if_pos h0] at hread; exact nomatch hread
    rw [if_neg hnul] at hread
    have hv : beginsVersion r := by
      by_contra hv
      rw [if_neg hv] at hread
      exact nomatch hread
    rw [if_pos hv] at hread
    injection hread with hm ht hver hjunk hrest
    subst hm ht
    have hs : method ++ 0 :: (target ++ 0 :: (r ++ 0 :: z)) =
        (method ++ 0 :: (target ++ [0])) ++ (r ++ 0 :: z) := by simp
    have hi : method.length + 1 + target.length + 1 = (method ++ 0 :: (target ++ [0])).length := by
      simp only [List.length_append, List.length_cons, List.length_nil]
      omega
    have hr := headerEnd_line hend hmethod htarget
    obtain ⟨hversion, -, hsuffix⟩ := requestVersion_full
      { bodyString := body, requestMethod := some 0, requestUri := some (method.length + 1) }
      hs hi hr hv
    rw [← hver, ← hjunk, ← hrest] at hversion
    rw [← hrest] at hsuffix
    have hver3 : version = text10 ∨ version = text11 := hver ▸ hv.2
    have hlen : version.length = 3 := by rcases hver3 with h | h <;> rw [h] <;> rfl
    refine ⟨?_, ((cutAt_eq_some (by decide)).mp hmethod).2.2,
      ((cutAt_eq_some (by decide)).mp htarget).2.2, hver3, ?_⟩
    · rw [requestLine_complete hmethod htarget, hversion, afterLine]
      congr 2
      · simp [cutLine]
      · simp only [cutLine, List.length_append, List.length_cons, List.length_nil, hlen, textHttp]
        omega
    · -- the last byte of the block is a LF
      intro hlast
      obtain ⟨x, hx⟩ := hsuffix
      obtain ⟨y, hy⟩ := hr
      have hcr : r.getLast? = some 13 := by rw [← hx, List.getLast?_append, hlast]; rfl
      have hlf : r.getLast? = some 10 := by rw [← hy, List.getLast?_append]; rfl
      exact absurd (hcr.symm.trans hlf) (by decide)

theorem length_joinLines (ls : List (List UInt8 × UInt8)) : ls.length ≤ (joinLines ls).length := by
  induction ls with
  | nil => exact Nat.le_refl _
  | cons l ls ih =>
    rw [joinLines] at ih
    simp only [joinLines, List.flatMap_cons, List.length_append, List.length_cons, List.length_nil]
    omega

/-- More than 30 header lines. -/
theorem parse_table (hend : headerEnd <:+ h)
    (hline : readLine h = .full method target version junk rest)
    (hlines : httpMaxHeaders < (headerLines rest.length rest).length) :
    parseRequest (h ++ 0 :: z) body = .error .table := by
  obtain ⟨hp, -, -, -, hlast⟩ := requestLine_full z body hend hline
  obtain ⟨ls, rest', hls, hrest, hall, -⟩ := headerLines_spec (Nat.le_refl _) hlast
  rw [hls, List.length_map] at hlines
  have hs : (afterLine method target version junk body (rest ++ 0 :: z)).s =
      cutLine method target version junk ++ (joinLines ls ++ (rest' ++ 0 :: z)) := by
    rw [afterLine, ← List.append_assoc (joinLines ls), ← hrest]
  have hfuel : ls.length < (afterLine method target version junk body (rest ++ 0 :: z)).s.length + 1 := by
    have hle := length_joinLines ls
    rw [hs, List.length_append, List.length_append]
    omega
  have hroom : ([] : List HttpHeader).length ≤ httpMaxHeaders := Nat.zero_le _
  have hheaders := parseHeaders_table hall hs rfl hroom
    (by rw [List.length_nil, Nat.zero_add]; exact hlines) hfuel
  rw [parseRequest, hp, ok_bind, if_neg (by exact Bool.false_ne_true)]
  simp only [afterLine] at hheaders ⊢
  rw [hheaders, error_bind]

/-- Up to 30 header lines. -/
theorem parse_headers (z : List UInt8) (body : Nat) (hend : headerEnd <:+ h)
    (hline : readLine h = .full method target version junk rest)
    (hlines : (headerLines rest.length rest).length ≤ httpMaxHeaders) :
    let p := afterLine method target version junk body (rest ++ 0 :: z)
    let lines := headerLines rest.length rest
    ∃ rest', (∀ l ∈ lines, IsLine l) ∧ (lines = [] → rest' = rest) ∧
      parseHeaders (p.s.length + 1) p.s p.url [] =
        .ok (cutLine method target version junk ++ (layout lines ++ (rest' ++ 0 :: z)),
          pointers (cutLine method target version junk).length lines) := by
  intro p lines
  obtain ⟨-, -, -, -, hlast⟩ := requestLine_full z body hend hline
  obtain ⟨ls, rest', hls, hrest, hall, hend'⟩ := headerLines_spec (Nat.le_refl _) hlast
  have hs : p.s = cutLine method target version junk ++ (joinLines ls ++ (rest' ++ 0 :: z)) := by
    conv_rhs => rw [← List.append_assoc (joinLines ls), ← hrest]
    rfl
  have hfuel : ls.length < p.s.length + 1 := by
    have hle := length_joinLines ls
    rw [hs, List.length_append, List.length_append]
    omega
  have hlines' : lines = ls.map Prod.fst := hls
  have hroom : ([] : List HttpHeader).length + ls.length ≤ httpMaxHeaders := by
    rw [hls, List.length_map] at hlines
    rwa [List.length_nil, Nat.zero_add]
  refine ⟨rest', ?_, ?_, ?_⟩
  · intro l hl
    rw [hlines'] at hl
    obtain ⟨l', hl', rfl⟩ := List.mem_map.mp hl
    exact hall l' hl'
  · intro hnil
    rw [hlines', List.map_eq_nil_iff] at hnil
    rw [hrest, hnil]
    rfl
  · rw [hlines']
    exact parseHeaders_layout hall hend' hs rfl hroom hfuel

theorem cutLine_append (method target version junk r : List UInt8) :
    cutLine method target version junk ++ r =
      (method ++ [0]) ++ (target ++ 0 :: (textHttp ++ version ++ 0 :: (junk ++ 10 :: r))) := by
  simp [cutLine]

theorem version_noNul (hver : version = text10 ∨ version = text11) : 0 ∉ textHttp ++ version := by
  rcases hver with rfl | rfl <;> decide

theorem version_noQuery (hver : version = text10 ∨ version = text11) :
    63 ∉ textHttp ++ version := by
  rcases hver with rfl | rfl <;> decide

/-- Behind the target the buffer ends with NULs. -/
theorem getLast_line (hzero : ∀ b ∈ z, b = 0) :
    (target ++ 0 :: (version ++ 0 :: (junk ++ 10 :: (rest ++ 0 :: z)))).getLast? = some 0 := by
  have hsplit : target ++ 0 :: (version ++ 0 :: (junk ++ 10 :: (rest ++ 0 :: z))) =
      (target ++ 0 :: (version ++ 0 :: (junk ++ 10 :: rest))) ++ 0 :: z := by simp
  rw [hsplit, getLast_zeros hzero]

/-- Without header lines the search for the query ends unless the block fills the buffer. -/
theorem scan_no_lines (h0 : 0 ∉ target) (hver0 : 0 ∉ version) (hver63 : 63 ∉ version)
    (hver : version ≠ []) (hzero : ∀ b ∈ z, b = 0) :
    scan true (target ++ 0 :: (version ++ 0 :: (junk ++ 10 :: (rest ++ 0 :: z)))) = none ↔
      z = [] ∧ target ≠ [] ∧ 63 ∉ target ∧ scan true (junk ++ 10 :: (rest ++ [0])) = none := by
  cases z with
  | cons b z =>
    obtain rfl := hzero b (List.mem_cons_self ..)
    have hsplit : target ++ 0 :: (version ++ 0 :: (junk ++ 10 :: (rest ++ 0 :: 0 :: z))) =
        (target ++ 0 :: (version ++ 0 :: (junk ++ 10 :: rest))) ++ 0 :: 0 :: z := by simp
    rw [hsplit, scan_pair]
    exact ⟨fun h => absurd h (scan_ends _), fun h => absurd h.1 (List.cons_ne_nil _ _)⟩
  | nil =>
    by_cases hnil : target = []
    · subst hnil
      exact ⟨fun h => (nomatch h), fun h => absurd rfl h.2.1⟩
    by_cases h63 : 63 ∈ target
    · obtain ⟨x, y, rfl, hx⟩ := List.eq_append_cons_of_mem h63
      rw [List.append_assoc, List.cons_append,
        scan_cut (fun h => h0 (List.mem_append_left _ h)) hx]
      exact ⟨fun h => (nomatch h), fun h => absurd h63 h.2.2.1⟩
    · rw [scan_nul h0 h63 fun h => absurd h hnil, scan_nul hver0 hver63 fun h => absurd h hver,
        Option.map_eq_none_iff, Option.map_eq_none_iff]
      exact ⟨fun h => ⟨rfl, hnil, h63, h⟩, fun h => h.2.2.2⟩

/-- The search for the query runs out of the buffer. -/
theorem parse_overrun (hend : headerEnd <:+ h)
    (hline : readLine h = .full method target version junk rest)
    (hlines : (headerLines rest.length rest).length ≤ httpMaxHeaders)
    (hover : overrun (h.length + 1 + z.length) h target junk rest) :
    parseRequest (h ++ 0 :: z) body = .error .bounds := by
  obtain ⟨hp, -, h0, hver, -⟩ := requestLine_full z body hend hline
  obtain ⟨rest', -, hrest, hheaders⟩ := parse_headers z body hend hline hlines
  obtain ⟨hfill, hnil, htarget, h63, hscan⟩ := hover
  obtain rfl : z = [] := List.length_eq_zero_iff.mp (by omega)
  rw [hnil, hrest hnil, cutLine_append, layout, List.flatMap_nil, List.nil_append] at hheaders
  have hscan' : scan true (target ++ 0 :: (textHttp ++ version ++ 0 ::
      (junk ++ 10 :: (rest ++ [0])))) = none :=
    (scan_no_lines h0 (version_noNul hver) (version_noQuery hver) (by simp [textHttp])
      (by simp)).mpr ⟨rfl, htarget, h63, hscan⟩
  have htail := decodeTarget_settled (a := method ++ [0]) (i := method.length + 1)
    (v := target ++ 0 :: (textHttp ++ version ++ 0 :: (junk ++ 10 :: (rest ++ [0])))) rfl (by simp)
    (getLast_line (by simp))
  rw [settled, hscan'] at htail
  rw [parseRequest, hp, ok_bind, if_neg (by exact Bool.false_ne_true), hheaders, ok_bind]
  change (decodeTarget _ _ >>= _) = _
  rw [htail]
  rfl

/-- With a header line: its name may have been edited. -/
theorem behind_cons {line : List UInt8} (target junk r : List UInt8) (ls : List (List UInt8))
    (hline : IsLine line) :
    ∃ junk' name', junk'.length = junk.length + 1 ∧
      name'.length = (fieldOf line).name.length ∧
      cstr name' = firstName target junk (fieldOf line).name ∧
      (if target = [] ∨ 63 ∈ target then some (junk ++ 10 :: (layout (line :: ls) ++ r))
        else editBehind (junk ++ 10 :: (layout (line :: ls) ++ r))) =
        some (junk' ++ (name' ++ markTail line ++ 0 :: 0 :: (layout ls ++ r))) ∧
      queryText (junk ++ 10 :: (layout (line :: ls) ++ r)) =
        queryText (junk ++ 10 :: (fieldOf line).name ++ [0, 0]) := by
  obtain ⟨tail, htail⟩ : ∃ tail, markTail line ++ 0 :: 0 :: (layout ls ++ r) = 0 :: 0 :: tail := by
    rcases hline.parts with ⟨-, hmark, -⟩ | ⟨v, -, hmark, -⟩
    · exact ⟨_, by rw [hmark]; rfl⟩
    · rw [hmark]
      cases v with
      | nil => exact ⟨_, rfl⟩
      | cons c v => exact ⟨_, rfl⟩
  have hsplit : junk ++ 10 :: (layout (line :: ls) ++ r) =
      (junk ++ 10 :: (fieldOf line).name) ++ 0 :: 0 :: tail := by
    rw [← htail, layout_cons]
    simp
  rw [hsplit, queryText_congr (scan_pair _ _), editBehind_pair, firstName]
  by_cases hcut : target = [] ∨ 63 ∈ target
  · rw [if_pos hcut, if_pos hcut]
    refine ⟨junk ++ [10], (fieldOf line).name, by simp, rfl, cstr_of_noNul hline.not_mem_name, ?_,
      rfl⟩
    rw [List.append_assoc _ (markTail line), htail]
    simp
  · rw [if_neg hcut, if_neg hcut]
    have hlen := length_settle (junk ++ 10 :: (fieldOf line).name)
    rw [List.length_append, List.length_cons] at hlen
    refine ⟨(settle (junk ++ 10 :: (fieldOf line).name)).take (junk.length + 1), _,
      by rw [List.length_take]; omega, by rw [List.length_drop]; omega, rfl, ?_, rfl⟩
    rw [List.append_assoc _ (markTail line), htail, ← List.append_assoc, List.take_append_drop]

/-- Without a header line the search ends, or it runs out of the buffer. -/
theorem behind_nil (target junk rest : List UInt8) (hzero : ∀ b ∈ z, b = 0)
    (hover : ¬ (z = [] ∧ target ≠ [] ∧ 63 ∉ target ∧
      scan true (junk ++ 10 :: (rest ++ [0])) = none)) :
    ∃ w', (if target = [] ∨ 63 ∈ target then some (junk ++ 10 :: (rest ++ 0 :: z))
        else editBehind (junk ++ 10 :: (rest ++ 0 :: z))) = some w' ∧
      (target ≠ [] → 63 ∉ target → queryText (junk ++ 10 :: (rest ++ 0 :: z)) =
        queryText (junk ++ 10 :: rest ++ [0, 0])) := by
  by_cases hcut : target = [] ∨ 63 ∈ target
  · exact ⟨_, if_pos hcut, fun hnil h63 => absurd hcut (not_or.mpr ⟨hnil, h63⟩)⟩
  obtain ⟨hnil, h63⟩ := not_or.mp hcut
  rw [if_neg hcut, ← List.cons_append, ← List.append_assoc]
  cases z with
  | cons b z =>
    obtain rfl := hzero b (List.mem_cons_self ..)
    exact ⟨_, editBehind_pair _ _, fun _ _ => queryText_congr (scan_pair _ _)⟩
  | nil =>
    have hsome : scan true ((junk ++ 10 :: rest) ++ [0]) ≠ none := by
      rw [List.append_assoc, List.cons_append]
      exact fun h => hover ⟨rfl, hnil, h63, h⟩
    obtain ⟨o, ho⟩ := Option.ne_none_iff_exists'.mp hsome
    have hpair : scan true ((junk ++ 10 :: rest) ++ [0, 0]) = some o := by
      have h := scan_append ho [0]
      rwa [List.append_assoc] at h
    obtain ⟨w', hw'⟩ : ∃ w', editBehind ((junk ++ 10 :: rest) ++ [0]) = some w' := by
      rw [editBehind, ho]
      cases o with
      | none => exact ⟨_, rfl⟩
      | some k => exact ⟨_, rfl⟩
    exact ⟨w', hw', fun _ _ => queryText_congr (ho.trans hpair.symm)⟩

/-- The strings of a request. -/
structure Strings (p : Parse) (uri query version : List UInt8) : Prop where
  uri : ∃ i, p.req.requestUri = some i ∧ str p.s i = .ok uri
  query : ∃ i, p.req.queryString = some i ∧ str p.s i = .ok query
  version : ∃ i, p.req.httpVersion = some i ∧ str p.s i = .ok version

/-- The parser leaves a request whose pointers denote the strings of the block. -/
theorem parse_full (body : Nat) (hend : headerEnd <:+ h)
    (hline : readLine h = .full method target version junk rest)
    (hlines : (headerLines rest.length rest).length ≤ httpMaxHeaders)
    (hzero : ∀ b ∈ z, b = 0)
    (hover : ¬ overrun (h.length + 1 + z.length) h target junk rest) :
    ∃ p, parseRequest (h ++ 0 :: z) body = .ok p ∧
      Parsed p method (fields target junk (headerLines rest.length rest)) ∧
      (target ≠ [] → Strings p (uriText target) (blockQuery target junk rest) version) := by
  obtain ⟨hp, hm0, h0, hver, -⟩ := requestLine_full z body hend hline
  obtain ⟨rest', hall, hrest, hheaders⟩ := parse_headers z body hend hline hlines
  have hver0 := version_noNul hver
  have hver63 := version_noQuery hver
  have hnil : textHttp ++ version ≠ [] := by simp [textHttp]
  have hlast : (target ++ 0 :: (textHttp ++ version ++ 0 ::
      (junk ++ 10 :: (layout (headerLines rest.length rest) ++ (rest' ++ 0 :: z))))).getLast? =
        some 0 := by
    rw [← List.append_assoc (layout _)]
    exact getLast_line hzero
  obtain ⟨w', hw', hquery, hheaders'⟩ : ∃ w',
      (if target = [] ∨ 63 ∈ target then
          some (junk ++ 10 :: (layout (headerLines rest.length rest) ++ (rest' ++ 0 :: z)))
        else editBehind
          (junk ++ 10 :: (layout (headerLines rest.length rest) ++ (rest' ++ 0 :: z)))) = some w' ∧
      (target ≠ [] → 63 ∉ target →
        queryText (junk ++ 10 :: (layout (headerLines rest.length rest) ++ (rest' ++ 0 :: z))) =
          queryText (behindVersion junk rest ++ [0, 0])) ∧
      ∀ a : List UInt8, a.length + junk.length + 1 =
          (cutLine method target version junk).length →
        List.Forall₂ (Denotes (a ++ w'))
          (pointers (cutLine method target version junk).length (headerLines rest.length rest))
          (fields target junk (headerLines rest.length rest)) := by
    rw [behindVersion]
    cases hls : headerLines rest.length rest with
    | nil =>
      have hover' : ¬ (z = [] ∧ target ≠ [] ∧ 63 ∉ target ∧
          scan true (junk ++ 10 :: (rest ++ [0])) = none) := by
        rintro ⟨rfl, hover'⟩
        exact hover ⟨by simp, hls, hover'⟩
      obtain ⟨w', hw', hquery⟩ := behind_nil target junk rest hzero hover'
      rw [hrest hls]
      exact ⟨w', hw', hquery, fun _ _ => .nil⟩
    | cons line ls =>
      rw [hls] at hall
      have hline := hall line (List.mem_cons_self ..)
      obtain ⟨junk', name', hjunk, hname, hfirst, hw', hquery⟩ :=
        behind_cons target junk (rest' ++ 0 :: z) ls hline
      refine ⟨_, hw', fun _ _ => hquery, fun a ha => ?_⟩
      have hfields : fields target junk (line :: ls) =
          ⟨cstr name', (fieldOf line).value⟩ :: ls.map fieldOf := by rw [hfirst]; rfl
      rw [hfields]
      refine pointers_denote_cons (a := a ++ junk') (r := rest' ++ 0 :: z) hline
        (fun l hl => hall l (List.mem_cons_of_mem _ hl)) hname (by simp) ?_
      rw [List.length_append, hjunk]
      omega
  have htail := decodeTarget_settled (a := method ++ [0]) (i := method.length + 1) rfl (by simp) hlast
  rw [settled_behind h0 hver0 hver63 hnil, hw', Option.map_some] at htail
  obtain ⟨q, hq, hqtext⟩ := htail
  have hlen := length_decodedTarget target
  -- the buffer, split where the version and what is behind it begin
  have hsplit : (method ++ [0]) ++
      (decodedTarget target ++ 0 :: (textHttp ++ version ++ 0 :: w')) =
        ((method ++ [0]) ++ (decodedTarget target ++ 0 :: textHttp)) ++ (version ++ 0 :: w') := by
    simp
  have hversion : str ((method ++ [0]) ++
      (decodedTarget target ++ 0 :: (textHttp ++ version ++ 0 :: w')))
        (method.length + 1 + target.length + 1 + 5) = .ok version := by
    have hver0' : 0 ∉ version := fun h => hver0 (List.mem_append_right _ h)
    rw [str_at hsplit ?_ (by simp), cstr_append hver0']
    simp only [List.length_append, List.length_cons, List.length_nil, hlen, textHttp]
    omega
  have hsplit' : (method ++ [0]) ++
      (decodedTarget target ++ 0 :: (textHttp ++ version ++ 0 :: w')) =
        ((method ++ [0]) ++ (decodedTarget target ++ 0 :: (textHttp ++ version ++ [0]))) ++ w' := by
    simp
  have huri := str_at (a := method ++ [0]) (i := method.length + 1)
    (x := decodedTarget target ++ 0 :: (textHttp ++ version ++ 0 :: w')) rfl (by simp) (by simp)
  rw [cstr_decodedTarget h0] at huri
  rw [cutLine_append] at hheaders
  refine ⟨_, parse_parts hp rfl hheaders rfl hq, ⟨rfl, ⟨0, rfl, str_method hm0⟩, ⟨_, _, rfl, huri⟩,
    fun _ => ⟨_, _, rfl, hversion⟩, ?_⟩, fun htarget => ⟨⟨_, rfl, huri⟩, ?_, ⟨_, rfl, hversion⟩⟩⟩
  · rw [hsplit']
    refine hheaders' _ ?_
    simp only [cutLine, List.length_append, List.length_cons, List.length_nil, hlen]
    omega
  · have hhead : (target ++ 0 :: (textHttp ++ version ++ 0 :: (junk ++ 10 ::
        (layout (headerLines rest.length rest) ++ (rest' ++ 0 :: z))))).head? ≠ some 0 := by
      cases target with
      | nil => exact absurd rfl htarget
      | cons b target => exact fun hb => h0 (Option.some.inj hb ▸ List.mem_cons_self ..)
    obtain ⟨j, hj, hstr⟩ := hqtext hhead
    refine ⟨j, hj, hstr.trans (congrArg Except.ok ?_)⟩
    rw [queryText_behind h0 htarget hver0 hver63 hnil, blockQuery]
    by_cases h63 : 63 ∈ target
    · rw [if_pos h63, if_pos h63]
    · rw [if_neg h63, if_neg h63, hquery htarget h63]

/-- A block with a full request line is accepted within the bounds only. -/
theorem parsed_of_full {p : Parse} (hend : headerEnd <:+ h)
    (hline : readLine h = .full method target version junk rest) (hzero : ∀ b ∈ z, b = 0)
    (hparse : parseRequest (h ++ 0 :: z) body = .ok p) :
    Parsed p method (fields target junk (headerLines rest.length rest)) ∧
      (target ≠ [] → Strings p (uriText target) (blockQuery target junk rest) version) := by
  have hlines : (headerLines rest.length rest).length ≤ httpMaxHeaders := by
    by_contra hmore
    rw [parse_table hend hline (Nat.lt_of_not_le hmore)] at hparse
    exact absurd hparse (by simp)
  have hover : ¬ overrun (h.length + 1 + z.length) h target junk rest := by
    intro hover
    rw [parse_overrun hend hline hlines hover] at hparse
    exact absurd hparse (by simp)
  obtain ⟨p', hp', hparsed⟩ := parse_full body hend hline hlines hzero hover
  obtain rfl := Except.ok.inj (hparse.symm.trans hp')
  exact hparsed

/-- Whatever request the parser leaves, its pointers denote the strings of the block. -/
theorem parse_fields {p : Parse} (hend : headerEnd <:+ h) (hzero : ∀ b ∈ z, b = 0)
    (hparse : parseRequest (h ++ 0 :: z) body = .ok p) :
    p.unsupported = true ∨ ∃ method, Parsed p method (blockFields h) := by
  cases hline : readLine h with
  | incomplete =>
    rw [parse_incomplete hline] at hparse
    exact absurd hparse (by simp)
  | bare method target =>
    obtain ⟨p', hp', hparsed⟩ := parse_bare body hline hzero
    obtain rfl := Except.ok.inj (hparse.symm.trans hp')
    exact .inr ⟨method, by rwa [blockFields, hline]⟩
  | unsupported =>
    obtain ⟨p', hp', hunsupported⟩ := parse_unsupported z body hend hline
    obtain rfl := Except.ok.inj (hparse.symm.trans hp')
    exact .inl hunsupported
  | full method target version junk rest =>
    obtain ⟨hparsed, -⟩ := parsed_of_full hend hline hzero hparse
    exact .inr ⟨method, by rwa [blockFields, hline]⟩

end Blocks

end Tst
