import Mathlib.Data.Bool.AllAny
import Tst.Http.QueryString
import Tst.Http.Target

/-!
# Parameters in a query

A client sends names and values percent-encoded, as `name=value` joined by `&`. `http()` decodes
the whole query, and a route cuts what it has decoded.

## Main definitions

- `PercentEncoded` — a text and a way to encode it
- `Escapes` — a text with escapes, and what it stands for
- `QueryParam` — a name and a value that are sent

## Main results

- `urlDecode_escapes` — the decoder is right on every text whose `%` are escapes
- `query_round_trip_iff` — the route finds every value exactly when no name holds `=` and no
  value holds `&`
-/

namespace Tst

open CString CQueryString

/-- A letter or a digit. -/
def isalnum (b : UInt8) : Bool :=
  (48 ≤ b && b ≤ 57) || (65 ≤ b && b ≤ 90) || (97 ≤ b && b ≤ 122)

/-- `PercentEncoded t e`: letters and digits of `t` stand in `e` as they are, and every other
byte as `%` and two hexadecimal digits. -/
inductive PercentEncoded : List UInt8 → List UInt8 → Prop
  | nil : PercentEncoded [] []
  | plain {b : UInt8} {t e : List UInt8} (hb : isalnum b = true) (rest : PercentEncoded t e) :
      PercentEncoded (b :: t) (b :: e)
  | hex {b x y : UInt8} {t e : List UInt8} (hb : isalnum b = false) (hx : isxdigit x = true)
      (hy : isxdigit y = true) (hval : hexDigit x * 16 + hexDigit y = b)
      (rest : PercentEncoded t e) : PercentEncoded (b :: t) (37 :: x :: y :: e)

/-- `Escapes e t`: every `%` in `e` is followed by two hexadecimal digits, and with the bytes
that these escapes stand for `e` is `t`. -/
inductive Escapes : List UInt8 → List UInt8 → Prop
  | nil : Escapes [] []
  | raw {b : UInt8} {e t : List UInt8} (hb : b ≠ 37) (rest : Escapes e t) :
      Escapes (b :: e) (b :: t)
  | hex {x y : UInt8} {e t : List UInt8} (hx : isxdigit x = true) (hy : isxdigit y = true)
      (rest : Escapes e t) : Escapes (37 :: x :: y :: e) ((hexDigit x * 16 + hexDigit y) :: t)

/-- A parameter as the client has it. -/
structure QueryParam where
  name : List UInt8
  value : List UInt8
  name_ne : name ≠ []
  value_ne : value ≠ []
  name_short : name.length < 128
  value_short : value.length < 128
  name_plain : ∀ b ∈ name, PlainByte b
  value_plain : ∀ b ∈ value, PlainByte b

namespace QueryParam

/-- `name=value`, both as they are. -/
def text (q : QueryParam) : List UInt8 := q.name ++ 61 :: q.value

/-- `name=value`, both encoded. -/
def SentAs (q : QueryParam) (e : List UInt8) : Prop :=
  ∃ n v, PercentEncoded q.name n ∧ PercentEncoded q.value v ∧ e = n ++ 61 :: v

/-- The parameters joined by `&`, as they are. -/
def joined (qs : List QueryParam) : List UInt8 := [38].intercalate (qs.map text)

end QueryParam

/-- What a route reads: `CQueryString qs(req.query_string, CQueryString::ALL)`. -/
def routeQuery (p : Parse) (a : Arrays) : Except Fault CQueryString :=
  CQueryString.new p.s p.req.queryString esAll a

-- ════════════════════════════════════════════════════════════════════════
-- The decoder
-- ════════════════════════════════════════════════════════════════════════

section Decoder

variable {e e' t t' : List UInt8} {fuel : Nat}

theorem Escapes.append (h : Escapes e t) (h' : Escapes e' t') : Escapes (e ++ e') (t ++ t') := by
  induction h with
  | nil => exact h'
  | raw hb _ ih => exact .raw hb ih
  | hex hx hy _ ih => exact .hex hx hy ih

theorem PercentEncoded.escapes (h : PercentEncoded t e) : Escapes e t := by
  induction h with
  | nil => exact .nil
  | plain hb _ ih => exact .raw (fun h37 => by simp [h37, isalnum] at hb) ih
  | hex _ hx hy hval _ ih => exact hval ▸ .hex hx hy ih

/-- The loop of the decoder: `out` has been written, and the bytes of `gap` have been read. -/
theorem urlDecodeLoop_escapes (h : Escapes e t) (out gap : List UInt8)
    (hfuel : e.length < fuel) : ∃ gap', urlDecodeLoop fuel (out ++ (gap ++ e)) (out.length + gap.length) out.length =
      (out ++ (t ++ gap'), out.length + t.length) := by
  induction h generalizing out gap fuel with
  | nil =>
    obtain ⟨fuel, rfl⟩ := Nat.exists_eq_succ_of_ne_zero (Nat.ne_zero_of_lt hfuel)
    have hend : (out ++ (gap ++ []))[out.length + gap.length]? = none := by
      rw [List.append_nil, ← List.length_append]
      exact List.getElem?_length ..
    rw [urlDecodeLoop, hend, List.append_nil]
    exact ⟨gap, rfl⟩
  | @raw b e t hb rest ih =>
    obtain ⟨fuel, rfl⟩ := Nat.exists_eq_succ_of_ne_zero (Nat.ne_zero_of_lt hfuel)
    have hread : (out ++ (gap ++ b :: e))[out.length + gap.length]? = some b := by
      rw [← List.append_assoc, ← List.length_append, List.getElem?_append_right (Nat.le_refl _),
        Nat.sub_self]
      rfl
    -- what is written is the byte that was read, and the gap moves on by one
    have hwritten : (if out.length < out.length + gap.length then
        (out ++ (gap ++ b :: e)).set out.length b else out ++ (gap ++ b :: e)) =
        (out ++ [b]) ++ ((gap ++ [b]).drop 1 ++ e) := by
      cases gap with
      | nil => simp
      | cons g gap =>
        rw [if_pos (by simp), set_write (by simp)]
        simp
    have hlen : out.length + gap.length + 1 = (out ++ [b]).length + ((gap ++ [b]).drop 1).length := by
      simp only [List.length_append, List.length_drop, List.length_cons, List.length_nil]
      omega
    have hout : out.length + 1 = (out ++ [b]).length := length_next rfl _
    rw [urlDecodeLoop, hread]
    dsimp only
    rw [if_neg hb, hwritten, hlen, hout]
    obtain ⟨gap', hgap⟩ := ih (out ++ [b]) ((gap ++ [b]).drop 1) (Nat.lt_of_succ_lt_succ hfuel)
    refine ⟨gap', hgap.trans ?_⟩
    rw [List.append_assoc, ← hout, List.length_cons]
    exact congrArg _ (by omega)
  | @hex x y e t hx hy rest ih =>
    obtain ⟨fuel, rfl⟩ := Nat.exists_eq_succ_of_ne_zero (Nat.ne_zero_of_lt hfuel)
    have hread : ∀ k, (out ++ (gap ++ 37 :: x :: y :: e))[out.length + gap.length + k]? =
        (37 :: x :: y :: e)[k]? := by
      intro k
      rw [← List.append_assoc, ← List.length_append, List.getElem?_append_right (by omega),
        Nat.add_sub_cancel_left]
    have hwritten : ∀ v, (out ++ (gap ++ 37 :: x :: y :: e)).set out.length v =
        (out ++ [v]) ++ ((gap ++ [37, x, y]).drop 1 ++ e) := by
      intro v
      rw [set_write (by simp)]
      cases gap with
      | nil => rfl
      | cons g gap => simp
    have hlen : ∀ v : UInt8, out.length + gap.length + 3 =
        (out ++ [v]).length + ((gap ++ [37, x, y]).drop 1).length := by
      intro v
      simp only [List.length_append, List.length_drop, List.length_cons, List.length_nil]
      omega
    have hout : ∀ v : UInt8, out.length + 1 = (out ++ [v]).length := by
      intro v
      rw [List.length_append]
      rfl
    have hfuel' : e.length < fuel := by
      simp only [List.length_cons] at hfuel
      omega
    have h0 := hread 0
    rw [Nat.add_zero] at h0
    obtain ⟨gap', hgap⟩ := ih (out ++ [hexDigit x * 16 + hexDigit y])
      ((gap ++ [37, x, y]).drop 1) hfuel'
    rw [urlDecodeLoop, h0]
    simp only [List.getElem?_cons_zero, if_true, hread 1, hread 2, List.getElem?_cons_succ, hx, hy,
      Bool.and_self, hwritten]
    rw [hlen (hexDigit x * 16 + hexDigit y), hout (hexDigit x * 16 + hexDigit y)]
    refine ⟨gap', hgap.trans ?_⟩
    rw [List.append_assoc, List.length_append, List.length_cons, List.length_cons]
    exact congrArg _ (by simp only [List.length_nil]; omega)

/-- A text whose `%` are all escapes is decoded to what it stands for. -/
theorem urlDecode_escapes (h : Escapes e t) (h0 : 0 ∉ t) : cstr (urlDecode e) = t := by
  obtain ⟨gap, hgap⟩ := urlDecodeLoop_escapes h [] [] (Nat.lt_succ_self _)
  have hloop : urlDecodeLoop (e.length + 1) e 0 0 = (t ++ gap, t.length) := by
    simpa using hgap
  rw [urlDecode, hloop]
  dsimp only
  cases gap with
  | nil =>
    rw [List.append_nil, List.set_eq_of_length_le (Nat.le_refl _)]
    exact cstr_of_noNul h0
  | cons b gap =>
    rw [List.set_append_right _ _ (Nat.le_refl _), Nat.sub_self]
    exact cstr_append h0

end Decoder

-- ════════════════════════════════════════════════════════════════════════
-- The text of the parameters
-- ════════════════════════════════════════════════════════════════════════

section Text

open QueryParam

variable {qs : List QueryParam} {es : List (List UInt8)} {fuel : Nat}

/-- What is sent stands for the parameters as they are. -/
theorem sent_escapes (h : List.Forall₂ SentAs qs es) :
    Escapes ([38].intercalate es) (joined qs) := by
  have hone : ∀ {q : QueryParam} {e : List UInt8}, q.SentAs e → Escapes e q.text := by
    rintro q e ⟨n, v, hn, hv, rfl⟩
    exact hn.escapes.append (.raw (by decide) hv.escapes)
  induction h with
  | nil => exact .nil
  | @cons q e qs es hq hrest ih =>
    cases hrest with
    | nil =>
      rw [joined, List.map_singleton, List.intercalate_singleton, List.intercalate_singleton]
      exact hone hq
    | cons hq' hrest' =>
      rw [joined, List.map_cons, List.map_cons, List.intercalate_cons_cons,
        List.intercalate_cons_cons]
      exact ((hone hq).append (.raw (by decide) .nil)).append ih

theorem text_plain (q : QueryParam) : ∀ b ∈ q.text, PlainByte b := by
  intro b hb
  obtain hb | hb := List.mem_append.mp hb
  · exact q.name_plain b hb
  · obtain rfl | hb := List.mem_cons.mp hb
    · decide
    · exact q.value_plain b hb

theorem joined_plain : ∀ b ∈ joined qs, PlainByte b := by
  intro b hb
  induction qs with
  | nil => exact absurd hb List.not_mem_nil
  | cons q qs ih =>
    cases qs with
    | nil =>
      rw [joined, List.map_singleton, List.intercalate_singleton] at hb
      exact text_plain q b hb
    | cons q' qs =>
      rw [joined, List.map_cons, List.map_cons, List.intercalate_cons_cons, List.mem_append,
        List.mem_append, List.mem_singleton] at hb
      obtain (hb | rfl) | hb := hb
      · exact text_plain q b hb
      · decide
      · exact ih hb

/-- A parameter without separators is cut where it should be. -/
theorem splitParam_text {q : QueryParam} (rest : Option (List UInt8)) (h61 : 61 ∉ q.name)
    (h38 : 38 ∉ q.value) :
    splitParam (q.text ++ rest.elim [] (38 :: ·)) = some (q.name, q.value, rest) := by
  have hn0 : 0 ∉ q.name := fun h => (q.name_plain 0 h).1 rfl
  have hv0 : 0 ∉ q.value := fun h => (q.value_plain 0 h).1 rfl
  have htext : q.text ++ rest.elim [] (38 :: ·) =
      q.name ++ 61 :: (q.value ++ rest.elim [] (38 :: ·)) := by
    rw [text, List.append_assoc]
    rfl
  have hne : ¬ (q.name = [] ∨ q.value ++ rest.elim [] (38 :: ·) = []) := by
    rintro (h | h)
    · exact q.name_ne h
    · exact q.value_ne (List.append_eq_nil_iff.mp h).1
  rw [htext, splitParam_at rest h61 h38 hn0 hv0, if_neg hne]

/-- Parameters without separators are the entries of their text. -/
theorem entries_joined (hok : ∀ q ∈ qs, 61 ∉ q.name ∧ 38 ∉ q.value)
    (hfuel : (joined qs).length < fuel) :
    queryEntries fuel (joined qs) = qs.map fun q => (q.name, q.value) := by
  have hname : ∀ q : QueryParam, q.name.take (maxParse - 1) = q.name := fun q =>
    List.take_of_length_le (Nat.le_of_lt_succ q.name_short)
  have hvalue : ∀ q : QueryParam, q.value.take (maxParse - 1) = q.value := fun q =>
    List.take_of_length_le (Nat.le_of_lt_succ q.value_short)
  induction qs generalizing fuel with
  | nil =>
    obtain ⟨fuel, rfl⟩ := Nat.exists_eq_succ_of_ne_zero (Nat.ne_zero_of_lt hfuel)
    rfl
  | cons q qs ih =>
    obtain ⟨fuel, rfl⟩ := Nat.exists_eq_succ_of_ne_zero (Nat.ne_zero_of_lt hfuel)
    obtain ⟨h61, h38⟩ := hok q (List.mem_cons_self ..)
    cases qs with
    | nil =>
      have hsplit := splitParam_text none h61 h38
      rw [Option.elim_none, List.append_nil] at hsplit
      rw [joined, List.map_singleton, List.intercalate_singleton, queryEntries, hsplit]
      simp only [hname, hvalue, Option.elim_none, List.map_singleton]
    | cons q' qs =>
      have hsplit := splitParam_text (some (joined (q' :: qs))) h61 h38
      have hjoined : joined (q :: q' :: qs) = q.text ++ 38 :: joined (q' :: qs) := by
        rw [joined, joined, List.map_cons, List.map_cons, List.intercalate_cons_cons,
          List.append_assoc]
        rfl
      rw [Option.elim_some] at hsplit
      rw [hjoined, List.length_append, List.length_cons] at hfuel
      rw [hjoined, queryEntries, hsplit]
      simp only [hname, hvalue, Option.elim_some]
      rw [ih (fun q hq => hok q (List.mem_cons_of_mem _ hq)) (by omega)]
      rfl

end Text

-- ════════════════════════════════════════════════════════════════════════
-- The request
-- ════════════════════════════════════════════════════════════════════════

section Request

open QueryParam

variable {h method path query version junk rest : List UInt8} {p : Parse}

/-- The strings of the request line end before its NULs. -/
theorem target_noNul {target : List UInt8}
    (hline : readLine h = .full method target version junk rest) : 0 ∉ target := by
  obtain hinc | ⟨m, t, r, r', hmethod, htarget, hread⟩ := readLine_cases h
  · exact absurd (hinc.symm.trans hline) (by simp)
  · rw [hline] at hread
    split at hread
    · exact absurd hread (by simp)
    · split at hread
      · obtain ⟨-, rfl, -⟩ := RequestLine.full.inj hread
        exact ((cutAt_eq_some (by decide)).mp htarget).2.2
      · exact absurd hread (by simp)

/-- The query of a target that is `path?query` is decoded by itself. -/
theorem blockQuery_query (h0 : 0 ∉ path ++ 63 :: query) (hpath : 63 ∉ path) :
    blockQuery (path ++ 63 :: query) junk rest = cstr (urlDecode query) := by
  have hpath0 : 0 ∉ path := fun h => h0 (List.mem_append_left _ h)
  have hquery0 : 0 ∉ query := fun h => h0 (List.mem_append_right _ (List.mem_cons_of_mem _ h))
  have hdrop : (path ++ 63 :: (query ++ [0, 0])).drop (path.length + 1) = query ++ [0, 0] := by
    rw [← List.drop_drop, List.drop_left]
    rfl
  rw [blockQuery, if_pos (List.mem_append_right _ (List.mem_cons_self ..)), List.append_assoc,
    List.cons_append, queryText, scan_cut hpath0 hpath]
  dsimp only
  rw [hdrop, cstr_append hquery0]

/-- The route gets the map of the decoded text. -/
theorem routeQuery_eq {q : List UInt8} (hq : queryString p = .ok q)
    (hplain : ∀ b ∈ q, PlainByte b) (a : Arrays) :
    routeQuery p a = .ok ((queryEntries (q.length + 1) q).foldl put fun _ => none) := by
  obtain ⟨i, hi, hstr⟩ := bind_eq_ok.mp hq
  obtain ⟨j, hj⟩ : ∃ j, p.req.queryString = some j := by
    cases hp : p.req.queryString with
    | none => rw [hp] at hi; exact absurd hi (by simp [deref])
    | some j => exact ⟨j, rfl⟩
  rw [hj] at hi
  obtain rfl := Except.ok.inj hi
  rw [routeQuery, hj, CQueryString.new, hstr, ok_bind, CQueryString.parse]
  exact parseLoop_clean hplain a.name_length a.value_length (Nat.lt_succ_self _)

/-- For a request with the parameters `qs` in its query, the map that a route makes of the
query holds every value under its name exactly when no name holds `=` and no value `&`. -/
theorem query_round_trip_iff {h method path version junk rest : List UInt8}
    {es : List (List UInt8)} {sLen : UInt32} {p : Parse} (qs : List QueryParam) (a : Arrays)
    (hnodup : (qs.map QueryParam.name).Nodup) (hsent : List.Forall₂ SentAs qs es)
    (hpath : 63 ∉ path) (hend : headerEnd <:+ h)
    (hline : readLine h = .full method (path ++ 63 :: [38].intercalate es) version junk rest)
    (hp : parseRequest (h ++ 0 :: behind sLen h) h.length = .ok p) :
    (∃ map, routeQuery p a = .ok map ∧ ∀ q ∈ qs, map.get q.name = q.value) ↔
      ∀ q ∈ qs, 61 ∉ q.name ∧ 38 ∉ q.value := by
  have hzero : ∀ b ∈ behind sLen h, b = 0 := fun b hb => List.eq_of_mem_replicate hb
  have hne : path ++ 63 :: [38].intercalate es ≠ [] := by simp
  have hstrings := strings_of_parse hend hline hzero hne hp
  have hj0 : 0 ∉ joined qs := fun h => (joined_plain 0 h).1 rfl
  have hdecoded : queryString p = .ok (joined qs) := by
    rw [hstrings.queryString, blockQuery_query (target_noNul hline) hpath,
      urlDecode_escapes (sent_escapes hsent) hj0]
  rw [routeQuery_eq hdecoded joined_plain]
  constructor
  · -- a name with `=` is in no entry, and a value with `&` neither
    rintro ⟨map, hmap, hget⟩ q hq
    obtain rfl := Except.ok.inj hmap
    have hfound := hget q hq
    rw [CQueryString.get] at hfound
    cases hlook : (queryEntries ((joined qs).length + 1) (joined qs)).foldl put (fun _ => none)
        q.name with
    | none =>
      rw [hlook, Option.getD_none] at hfound
      exact absurd hfound.symm q.value_ne
    | some v =>
      rw [hlook, Option.getD_some] at hfound
      subst hfound
      obtain hmem | hnone := mem_of_foldl_put hlook
      · exact entries_separated hj0 hmem
      · exact absurd hnone (by simp)
  · intro hok
    refine ⟨_, rfl, fun q hq => ?_⟩
    have hkeys : ((qs.map fun q => (q.name, q.value)).map Prod.fst).Nodup := by
      rw [List.map_map]
      exact hnodup
    have hmem : (q.name, q.value) ∈ qs.map fun q => (q.name, q.value) :=
      List.mem_map.mpr ⟨q, hq, rfl⟩
    rw [CQueryString.get, entries_joined hok (Nat.lt_succ_self _)]
    exact congrArg (fun o => Option.getD o []) (foldl_put_of_mem hkeys hmem)

end Request

/-- `a`, with the value `b=`. -/
def paramA : QueryParam where
  name := [97]
  value := [98, 61]
  name_ne := List.cons_ne_nil _ _
  value_ne := List.cons_ne_nil _ _
  name_short := by decide
  value_short := by decide
  name_plain := List.all_iff_forall_prop.mp (by decide)
  value_plain := List.all_iff_forall_prop.mp (by decide)

/-- `a=b%3D`. -/
theorem paramA_sent : paramA.SentAs [97, 61, 98, 37, 51, 68] :=
  ⟨[97], [98, 37, 51, 68], .plain (by decide) .nil,
    .plain (by decide) (.hex (by decide) (by decide) (by decide) (by decide) .nil), rfl⟩

/-- A request for `/?a=b%3D`. -/
theorem query_round_trip_a : ∃ p, parseRequest (getBlock [47, 63, 97, 61, 98, 37, 51, 68] [] ++
      0 :: behind 64 (getBlock [47, 63, 97, 61, 98, 37, 51, 68] []))
      (getBlock [47, 63, 97, 61, 98, 37, 51, 68] []).length = .ok p ∧
    ∃ map, routeQuery p zeroArrays = .ok map ∧ ∀ q ∈ [paramA], map.get q.name = q.value := by
  refine ⟨_, rfl, (@query_round_trip_iff (getBlock [47, 63, 97, 61, 98, 37, 51, 68] []) textGet
    [47] text11 [] _ [[97, 61, 98, 37, 51, 68]] 64 _ [paramA] zeroArrays ?_ ?_ ?_ ?_ rfl rfl).mpr ?_⟩
  · decide
  · exact .cons paramA_sent .nil
  · decide
  · decide
  · exact List.forall_mem_singleton.mpr (by decide)

/-- `a`, with the value `1&b=2`. -/
def paramAnd : QueryParam where
  name := [97]
  value := [49, 38, 98, 61, 50]
  name_ne := List.cons_ne_nil _ _
  value_ne := List.cons_ne_nil _ _
  name_short := by decide
  value_short := by decide
  name_plain := List.all_iff_forall_prop.mp (by decide)
  value_plain := List.all_iff_forall_prop.mp (by decide)

/-- `a=1%26b%3D2`. -/
def textAnd : List UInt8 := [97, 61, 49, 37, 50, 54, 98, 37, 51, 68, 50]

theorem paramAnd_sent : paramAnd.SentAs textAnd :=
  ⟨[97], textAnd.drop 2, .plain (by decide) .nil,
    .plain (by decide) (.hex (by decide) (by decide) (by decide) (by decide) (.plain (by decide)
      (.hex (by decide) (by decide) (by decide) (by decide) (.plain (by decide) .nil)))), rfl⟩

/-- The value is cut at its `&`, and there is a parameter `b` that was not sent. -/
theorem query_injects : ∃ p map, parseRequest (getBlock (47 :: 63 :: textAnd) [] ++
      0 :: behind 64 (getBlock (47 :: 63 :: textAnd) []))
      (getBlock (47 :: 63 :: textAnd) []).length = .ok p ∧
    List.Forall₂ QueryParam.SentAs [paramAnd] [textAnd] ∧ routeQuery p zeroArrays = .ok map ∧
    map.get [97] = [49] ∧ map.get [98] = [50] := by
  refine ⟨_, _, rfl, .cons paramAnd_sent .nil,
    routeQuery_eq (q := [97, 61, 49, 38, 98, 61, 50]) rfl ?_ zeroArrays, rfl, rfl⟩
  exact List.all_iff_forall_prop.mp (by decide)

end Tst
