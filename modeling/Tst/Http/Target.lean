import Tst.Http.Total

/-!
# Target and headers

`http()` looks for the query in the bytes from the target on, and a target without `?` is
not the end of the search: it goes on in what follows the version on the request line and in
the name of the first header line.

## Main definitions

- `uriString`, `queryString` — the strings that a route gets
- `StrayQuery` — a query is found behind the version

## Main results

- `target_isolated_iff` — when the headers of two blocks with one request line make no
  difference to the two strings
-/

namespace Tst

open CString

/-- `request_uri`, as a string. -/
def uriString (p : Parse) : Except Fault (List UInt8) := do
  str p.s (← deref p.req.requestUri)

/-- `query_string`, as a string. -/
def queryString (p : Parse) : Except Fault (List UInt8) := do
  str p.s (← deref p.req.queryString)

/-- Behind the version, a `?` comes before two NULs in a row, and what follows it is not
decoded to nothing. -/
def StrayQuery (junk rest : List UInt8) : Prop :=
  ∃ k, scan true (behindVersion junk rest ++ [0, 0]) = some (some k) ∧
    cstr (urlDecode (cstr ((behindVersion junk rest).drop (k + 1)))) ≠ []

section Strings

variable {h z method target version junk rest : List UInt8} {body : Nat} {p : Parse}

/-- The strings of an accepted request. -/
theorem strings_of_parse (hend : headerEnd <:+ h)
    (hline : readLine h = .full method target version junk rest) (hzero : ∀ b ∈ z, b = 0)
    (htarget : target ≠ []) (hparse : parseRequest (h ++ 0 :: z) body = .ok p) :
    Strings p (uriText target) (blockQuery target junk rest) version :=
  (parsed_of_full hend hline hzero hparse).2 htarget

theorem Strings.uriString {uri query : List UInt8} (hs : Strings p uri query version) :
    uriString p = .ok uri := by
  obtain ⟨i, hi, hstr⟩ := hs.uri
  rw [Tst.uriString, hi]
  exact hstr

theorem Strings.queryString {uri query : List UInt8} (hs : Strings p uri query version) :
    queryString p = .ok query := by
  obtain ⟨i, hi, hstr⟩ := hs.query
  rw [Tst.queryString, hi]
  exact hstr

/-- The query string of a target without `?` is the one found behind the version. -/
theorem blockQuery_eq_nil_iff (h63 : 63 ∉ target) :
    blockQuery target junk rest = [] ↔ ¬ StrayQuery junk rest := by
  rw [blockQuery, if_neg h63, queryText, StrayQuery]
  cases hscan : scan true (behindVersion junk rest ++ [0, 0]) with
  | none => simp
  | some o =>
    cases o with
    | none => simp
    | some k =>
      have hk := scan_query_lt hscan
      simp only [List.drop_append_of_le_length hk, cstr_append_zero, Option.some.injEq,
        exists_eq_left', not_not]

end Strings

/-- For two accepted blocks with one request line the URI and the query string are the same,
and the query string of a target without `?` is empty, exactly when the target has a `?` or
in neither block a query is found behind the version. The byte after the version is lost, so
that it may be another one. -/
theorem target_isolated_iff {h₁ h₂ method target version junk rest₁ rest₂ : List UInt8}
    {sLen : UInt32} {p₁ p₂ : Parse} (hend₁ : headerEnd <:+ h₁) (hend₂ : headerEnd <:+ h₂)
    (hline₁ : readLine h₁ = .full method target version junk rest₁)
    (hline₂ : readLine h₂ = .full method target version junk rest₂) (htarget : target ≠ [])
    (hp₁ : parseRequest (h₁ ++ 0 :: behind sLen h₁) h₁.length = .ok p₁)
    (hp₂ : parseRequest (h₂ ++ 0 :: behind sLen h₂) h₂.length = .ok p₂) :
    (uriString p₁ = uriString p₂ ∧ queryString p₁ = queryString p₂ ∧
        (63 ∉ target → queryString p₁ = .ok [])) ↔
      (63 ∈ target ∨ ¬ StrayQuery junk rest₁ ∧ ¬ StrayQuery junk rest₂) := by
  have hzero : ∀ h : List UInt8, ∀ b ∈ behind sLen h, b = 0 :=
    fun h b hb => List.eq_of_mem_replicate hb
  have hs₁ := strings_of_parse hend₁ hline₁ (hzero h₁) htarget hp₁
  have hs₂ := strings_of_parse hend₂ hline₂ (hzero h₂) htarget hp₂
  rw [hs₁.uriString, hs₂.uriString, hs₁.queryString, hs₂.queryString]
  by_cases h63 : 63 ∈ target
  · have hquery : blockQuery target junk rest₁ = blockQuery target junk rest₂ := by
      rw [blockQuery, blockQuery, if_pos h63, if_pos h63]
    exact iff_of_true ⟨rfl, congrArg Except.ok hquery, fun hno => absurd h63 hno⟩ (.inl h63)
  · rw [← blockQuery_eq_nil_iff h63, ← blockQuery_eq_nil_iff h63]
    constructor
    · rintro ⟨-, hsame, hempty⟩
      have hnil₁ := Except.ok.inj (hempty h63)
      exact .inr ⟨hnil₁, (Except.ok.inj hsame).symm.trans hnil₁⟩
    · rintro (hin | ⟨hnil₁, hnil₂⟩)
      · exact absurd hin h63
      · exact ⟨rfl, congrArg Except.ok (hnil₁.trans hnil₂.symm), fun _ => congrArg Except.ok hnil₁⟩

/-- A `GET` request with these header lines. -/
def getBlock (target lines : List UInt8) : List UInt8 :=
  textGet ++ 32 :: (target ++ 32 :: (textHttp ++ text11 ++ 13 :: 10 :: (lines ++ [13, 10])))

/-- Two requests for `/a?b`, one with the header line `c?d: e`. -/
theorem target_isolated_query : ∃ p₁ p₂,
    parseRequest (getBlock [47, 97, 63, 98] [99, 63, 100, 58, 32, 101, 13, 10] ++
      0 :: behind 40 (getBlock [47, 97, 63, 98] [99, 63, 100, 58, 32, 101, 13, 10])) 29 = .ok p₁ ∧
    parseRequest (getBlock [47, 97, 63, 98] [] ++ 0 :: behind 40 (getBlock [47, 97, 63, 98] []))
      21 = .ok p₂ ∧
    uriString p₁ = uriString p₂ ∧ queryString p₁ = queryString p₂ ∧
      ((63 : UInt8) ∉ ([47, 97, 63, 98] : List UInt8) → queryString p₁ = .ok []) := by
  refine ⟨_, _, rfl, rfl, (@target_isolated_iff
    (getBlock [47, 97, 63, 98] [99, 63, 100, 58, 32, 101, 13, 10]) (getBlock [47, 97, 63, 98] [])
    textGet [47, 97, 63, 98] text11 [] _ _ 40 _ _ ?_ ?_ rfl rfl ?_ rfl rfl).mpr (.inl ?_)⟩
  · decide
  · decide
  · decide
  · decide

/-- The same header line gives a request for `/a` a query. -/
theorem target_not_isolated : ∃ p₁ p₂,
    readLine (getBlock [47, 97] [99, 63, 100, 58, 32, 101, 13, 10]) =
      .full textGet [47, 97] text11 [] [99, 63, 100, 58, 32, 101, 13, 10, 13, 10] ∧
    readLine (getBlock [47, 97] []) = .full textGet [47, 97] text11 [] [13, 10] ∧
    parseRequest (getBlock [47, 97] [99, 63, 100, 58, 32, 101, 13, 10] ++
      0 :: behind 40 (getBlock [47, 97] [99, 63, 100, 58, 32, 101, 13, 10])) 27 = .ok p₁ ∧
    parseRequest (getBlock [47, 97] [] ++ 0 :: behind 40 (getBlock [47, 97] [])) 19 = .ok p₂ ∧
    queryString p₁ = .ok [100] ∧ queryString p₂ = .ok [] :=
  ⟨_, _, rfl, rfl, rfl, rfl, rfl, rfl⟩

end Tst
