import Tst.Http.Target

/-!
# Well-formed header blocks

A request as HTTP has it: a request line, header lines with a name and a value, and an empty
line. For such a block the parser leaves pointers that do not depend on what is behind the
header lines in the buffer.

## Main definitions

- `HeaderField`, `RequestHead` — the parts of a request
- `RequestHead.block` — its bytes
- `RequestHead.parsed` — what the parser leaves

## Main results

- `parse_block` — the parser on a block with header lines
- `parsed_denotes`, `parsed_strings` — the pointers, whatever is behind the header lines
-/

namespace Tst

open CString

/-- The bytes that a header name may hold: what is printed, without the separators
`( ) < > @ , ; : \ " / [ ] ? = { }`. -/
def isTokenByte (b : UInt8) : Bool :=
  32 < b && b < 127 &&
    !([40, 41, 60, 62, 64, 44, 59, 58, 92, 34, 47, 91, 93, 63, 61, 123, 125] : List UInt8).contains b

/-- A header line: its name, and what is between the `:` and the line break. -/
structure HeaderField where
  name : List UInt8
  value : List UInt8
  name_ne : name ≠ []
  name_token : ∀ b ∈ name, isTokenByte b = true
  value_clean : ∀ b ∈ value, b ≠ 0 ∧ b ≠ 13 ∧ b ≠ 10

/-- A request line. -/
structure RequestHead where
  method : List UInt8
  target : List UInt8
  version : List UInt8
  method_clean : ∀ b ∈ method, b ≠ 0 ∧ b ≠ 32
  target_ne : target ≠ []
  target_clean : ∀ b ∈ target, b ≠ 0 ∧ b ≠ 32
  version_ok : version = text10 ∨ version = text11

namespace HeaderField

def line (f : HeaderField) : List UInt8 := f.name ++ 58 :: f.value

/-- The field that is found: the byte behind the `:` is lost. -/
def field (f : HeaderField) : Field := ⟨f.name, some (f.value.drop 1)⟩

end HeaderField

/-- The bytes of header lines. -/
def fieldLines (fs : List HeaderField) : List UInt8 := joinLines (fs.map fun f => (f.line, 10))

/-- The query of a target, decoded. -/
def targetQuery (target : List UInt8) : List UInt8 :=
  match cutAt 63 target with
  | none => []
  | some (_, y) => cstr (urlDecode y)

namespace RequestHead

/-- The request line, header lines, and the empty line. -/
def block (head : RequestHead) (fs : List HeaderField) : List UInt8 :=
  head.method ++ 32 :: (head.target ++ 32 ::
    (textHttp ++ head.version ++ 13 :: 10 :: (fieldLines fs ++ [13, 10])))

/-- Where the query is found: in the target, or at the end of the name of the first header. -/
def queryPointer (head : RequestHead) (name : List UInt8) : Nat :=
  match cutAt 63 head.target with
  | none => (cutLine head.method head.target head.version []).length + name.length
  | some (x, _) => head.method.length + 1 + x.length + 1

/-- What the parser leaves; `r` is what is behind the header lines. -/
def parsed (head : RequestHead) (f : HeaderField) (fs : List HeaderField) (body : Nat)
    (r : List UInt8) : Parse where
  s := cutLine head.method (decodedTarget head.target) head.version [] ++
    (layout ((f :: fs).map HeaderField.line) ++ r)
  url := (cutLine head.method head.target head.version []).length
  req := { (afterLine head.method head.target head.version [] body []).req with
    httpHeaders := pointers (cutLine head.method head.target head.version []).length
      ((f :: fs).map HeaderField.line)
    queryString := some (head.queryPointer f.name) }

end RequestHead

-- ════════════════════════════════════════════════════════════════════════
-- Header lines
-- ════════════════════════════════════════════════════════════════════════

section Fields

variable {f : HeaderField} {fs : List HeaderField} {b : UInt8}

theorem token_clean (h : isTokenByte b = true) : b ≠ 0 ∧ b ≠ 13 ∧ b ≠ 58 ∧ b ≠ 63 := by
  refine ⟨?_, ?_, ?_, ?_⟩
  all_goals
    rintro rfl
    exact absurd h (by decide)

theorem HeaderField.name_noNul (f : HeaderField) : 0 ∉ f.name := fun h =>
  (token_clean (f.name_token 0 h)).1 rfl

theorem HeaderField.name_noQuery (f : HeaderField) : 63 ∉ f.name := fun h =>
  (token_clean (f.name_token 63 h)).2.2.2 rfl

theorem fieldOf_line (f : HeaderField) : fieldOf f.line = f.field := by
  obtain ⟨c, n, hname⟩ := List.exists_cons_of_ne_nil f.name_ne
  have hn58 : 58 ∉ n := fun h =>
    (token_clean (f.name_token 58 (hname ▸ List.mem_cons_of_mem _ h))).2.2.1 rfl
  have hn0 : 0 ∉ n := fun h => f.name_noNul (hname ▸ List.mem_cons_of_mem _ h)
  have hcut : cutAt 58 (n ++ 58 :: f.value) = some (n, f.value) :=
    (cutAt_eq_some (by decide)).mpr ⟨rfl, hn58, hn0⟩
  rw [HeaderField.line, HeaderField.field, hname, List.cons_append, fieldOf, hcut]

theorem isLine_line (f : HeaderField) : IsLine f.line := by
  obtain ⟨c, n, hname⟩ := List.exists_cons_of_ne_nil f.name_ne
  have hclean : ∀ b ∈ f.name, b ≠ 0 ∧ b ≠ 13 := fun b hb =>
    ⟨(token_clean (f.name_token b hb)).1, (token_clean (f.name_token b hb)).2.1⟩
  have hline : ∀ b ∈ f.line, b ≠ 0 ∧ b ≠ 13 := by
    intro b hb
    obtain hb | hb := List.mem_append.mp hb
    · exact hclean b hb
    · obtain rfl | hb := List.mem_cons.mp hb
      · decide
      · exact ⟨(f.value_clean b hb).1, (f.value_clean b hb).2.1⟩
  rw [HeaderField.line, hname, List.cons_append] at hline
  refine ⟨c, n ++ 58 :: f.value, by rw [HeaderField.line, hname]; rfl,
    (hline c (List.mem_cons_self ..)).1, fun h => ?_, fun h => ?_⟩
  · exact (hline 13 (List.mem_cons_of_mem _ h)).2 rfl
  · exact (hline 0 (List.mem_cons_of_mem _ h)).1 rfl

theorem isRest_empty : IsRest [13, 10] := by
  rintro b t h -
  obtain ⟨rfl, rfl⟩ := List.cons.inj h
  rfl

theorem map_fieldOf (fs : List HeaderField) :
    (fs.map HeaderField.line).map fieldOf = fs.map HeaderField.field := by
  rw [List.map_map]
  exact List.map_congr_left fun f _ => fieldOf_line f

end Fields

-- ════════════════════════════════════════════════════════════════════════
-- The search for the query
-- ════════════════════════════════════════════════════════════════════════

section Search

variable {s : List UInt8} {i : Nat} {q : Option Nat}

/-- The query of `decodeTarget` is the one of the search. -/
theorem decodeTarget_query {s' s'' : List UInt8} {q' : Option Nat}
    (hsplit : splitUri (s.length + 1) s i none = .ok (s', q))
    (h : decodeTarget s i = .ok (s'', q')) : q' = q := by
  rw [decodeTarget, hsplit, ok_bind] at h
  obtain ⟨s₁, -, h⟩ := bind_eq_ok.mp h
  obtain ⟨s₂, -, h⟩ := bind_eq_ok.mp h
  exact (Prod.mk.inj (Except.ok.inj h)).2.symm

end Search

-- ════════════════════════════════════════════════════════════════════════
-- The parser
-- ════════════════════════════════════════════════════════════════════════

section Block

variable {head : RequestHead} {f : HeaderField} {fs : List HeaderField} {z : List UInt8}

theorem RequestHead.method_noNul (head : RequestHead) : 0 ∉ head.method := fun h =>
  (head.method_clean 0 h).1 rfl

theorem RequestHead.target_noNul (head : RequestHead) : 0 ∉ head.target := fun h =>
  (head.target_clean 0 h).1 rfl

theorem readLine_block (head : RequestHead) (fs : List HeaderField) :
    readLine (head.block fs) =
      .full head.method head.target head.version [] (fieldLines fs ++ [13, 10]) := by
  have hmethod : ∀ r, cutAt 32 (head.method ++ 32 :: r) = some (head.method, r) := fun r =>
    (cutAt_eq_some (by decide)).mpr
      ⟨rfl, fun h => (head.method_clean 32 h).2 rfl, head.method_noNul⟩
  have htarget : ∀ r, cutAt 32 (head.target ++ 32 :: r) = some (head.target, r) := fun r =>
    (cutAt_eq_some (by decide)).mpr
      ⟨rfl, fun h => (head.target_clean 32 h).2 rfl, head.target_noNul⟩
  rw [readLine, RequestHead.block, hmethod]
  dsimp only
  rw [htarget]
  dsimp only
  obtain hversion | hversion := head.version_ok
  · rw [hversion]
    rfl
  · rw [hversion]
    rfl

theorem headerEnd_block (head : RequestHead) (f : HeaderField) (fs : List HeaderField) :
    headerEnd <:+ head.block (f :: fs) := by
  have hlines : ∀ (f : HeaderField) fs, [13, 10] <:+ fieldLines (f :: fs) := by
    intro f fs
    induction fs generalizing f with
    | nil => exact ⟨f.line, by simp [fieldLines, joinLines]⟩
    | cons f' fs ih =>
      refine (ih f').trans ⟨f.line ++ [13, 10], ?_⟩
      simp [fieldLines, joinLines]
  obtain ⟨x, hx⟩ := hlines f fs
  refine ⟨head.method ++ 32 :: (head.target ++ 32 ::
    (textHttp ++ head.version ++ 13 :: 10 :: x)), ?_⟩
  rw [RequestHead.block, ← hx]
  simp [headerEnd]

/-- What the line of a field becomes begins with its name and two NULs. -/
theorem layout_field (f : HeaderField) (ls : List (List UInt8)) (r : List UInt8) :
    ∃ tail, layout (f.line :: ls) ++ r = f.name ++ 0 :: 0 :: tail := by
  have hname : (fieldOf f.line).name = f.name := by rw [fieldOf_line]; rfl
  obtain ⟨-, -, -, hnone, -⟩ | ⟨v, -, hmark, -⟩ := (isLine_line f).parts
  · rw [fieldOf_line] at hnone
    exact absurd hnone (by simp [HeaderField.field])
  · rw [layout_cons, hname, hmark]
    cases v with
    | nil => exact ⟨0 :: (layout ls ++ r), by simp⟩
    | cons c v => exact ⟨v ++ 0 :: 0 :: (layout ls ++ r), by simp⟩

/-- Where the search for the query ends. -/
theorem splitUri_block {s : List UInt8} {fuel : Nat} (head : RequestHead) (f : HeaderField)
    (tail : List UInt8) (hs : s = cutLine head.method head.target head.version [] ++
      (f.name ++ 0 :: 0 :: tail)) (hfuel : s.length < fuel) :
    ∃ s', splitUri fuel s (head.method.length + 1) none =
      .ok (s', some (head.queryPointer f.name)) := by
  have hv0 := version_noNul head.version_ok
  have hv63 := version_noQuery head.version_ok
  rw [cutLine_append] at hs
  have hi : head.method.length + 1 = (head.method ++ [0]).length := length_next rfl _
  have hlen := congrArg List.length hs
  rw [RequestHead.queryPointer]
  cases hcut : cutAt 63 head.target with
  | some p =>
    obtain ⟨x, y⟩ := p
    obtain ⟨htarget, h63, h0⟩ := (cutAt_eq_some (by decide)).mp hcut
    have hv : ∀ w : List UInt8, head.target ++ 0 :: w = x ++ 63 :: (y ++ 0 :: w) := by
      intro w
      rw [htarget, List.append_assoc, List.cons_append]
    rw [hv] at hs
    have hfuel' : (x ++ 63 :: (y ++ 0 :: (textHttp ++ head.version ++ 0 :: ([] ++ 10 ::
        (f.name ++ 0 :: 0 :: tail))))).length < fuel := by
      have hlen := congrArg List.length hs
      rw [List.length_append] at hlen
      omega
    have hscan := splitUri_scan (q := none) hs hi hfuel'
    rw [scan_cut h0 h63] at hscan
    exact ⟨_, hscan⟩
  | none =>
    have h63 : 63 ∉ head.target := by
      have hno := (cutAt_eq_none (by decide)).mp hcut
      rwa [cstr_of_noNul head.target_noNul] at hno
    -- the target, the version and the name of the first header are passed
    have hs₁ : s = (head.method ++ [0] ++ head.target ++ [0]) ++ (textHttp ++ head.version ++
        0 :: (10 :: (f.name ++ 0 :: 0 :: tail))) := by rw [hs]; simp
    have hi₁ : head.method.length + 1 + head.target.length + 1 =
        (head.method ++ [0] ++ head.target ++ [0]).length := by
      simp only [List.length_append, List.length_cons, List.length_nil]
    have hs₂ : s = (head.method ++ [0] ++ head.target ++ [0] ++ (textHttp ++ head.version) ++ [0])
        ++ (10 :: f.name ++ 0 :: (0 :: tail)) := by rw [hs]; simp
    have hi₂ : head.method.length + 1 + head.target.length + 1 + (textHttp ++ head.version).length +
        1 = (head.method ++ [0] ++ head.target ++ [0] ++ (textHttp ++ head.version) ++ [0]).length := by
      simp only [List.length_append, List.length_cons, List.length_nil]
    have hs₃ : s = (head.method ++ [0] ++ head.target ++ [0] ++ (textHttp ++ head.version) ++ [0] ++
        10 :: f.name ++ [0]) ++ 0 :: tail := by rw [hs₂]; simp
    have hload := load_at hs₃ rfl
    obtain ⟨fuel, rfl⟩ : ∃ k, fuel = k + 1 + 1 + 1 + 1 := by
      refine ⟨fuel - 4, ?_⟩
      simp only [List.length_append, List.length_cons, List.length_nil] at hlen
      omega
    refine ⟨s, ?_⟩
    rw [splitUri_nul hs hi head.target_ne head.target_noNul h63,
      splitUri_nul hs₁ hi₁ (by simp [textHttp]) hv0 hv63,
      splitUri_nul hs₂ hi₂ (by simp) (by simp [f.name_noNul]) (by simp [f.name_noQuery])]
    have hi₃ : head.method.length + 1 + head.target.length + 1 +
        (textHttp ++ head.version).length + 1 + (10 :: f.name).length + 1 =
        (head.method ++ [0] ++ head.target ++ [0] ++ (textHttp ++ head.version) ++ [0] ++
          10 :: f.name ++ [0]).length := by
      simp only [List.length_append, List.length_cons, List.length_nil]
    have hq : head.method.length + 1 + head.target.length + 1 +
        (textHttp ++ head.version).length + 1 + (10 :: f.name).length =
        (cutLine head.method head.target head.version []).length + f.name.length := by
      simp only [cutLine, List.length_append, List.length_cons, List.length_nil]
      omega
    rw [splitUri, hi₃, hload, ok_bind, if_pos rfl, hq]
    rfl

/-- The buffer behind the request line, split where the header lines end. -/
theorem afterLine_block (head : RequestHead) (fs : List HeaderField) (z : List UInt8) (body : Nat) :
    let p := afterLine head.method head.target head.version [] body
      (fieldLines fs ++ [13, 10] ++ 0 :: z)
    let ls := fs.map fun f => (f.line, (10 : UInt8))
    p.s = cutLine head.method head.target head.version [] ++
        (joinLines ls ++ ([13, 10] ++ 0 :: z)) ∧
      (∀ l ∈ ls, IsLine l.1) ∧ ls.length < p.s.length + 1 := by
  intro p ls
  have hs : p.s = cutLine head.method head.target head.version [] ++
      (joinLines ls ++ ([13, 10] ++ 0 :: z)) := by
    change _ ++ (joinLines ls ++ [13, 10] ++ 0 :: z) = _
    rw [List.append_assoc (joinLines _)]
  refine ⟨hs, fun l hl => ?_, ?_⟩
  · obtain ⟨f, -, rfl⟩ := List.mem_map.mp hl
    exact isLine_line f
  · have hle := length_joinLines ls
    rw [hs, List.length_append, List.length_append]
    omega

/-- More header lines than the table holds. -/
theorem parse_block_table (body : Nat) (z : List UInt8)
    (hlines : httpMaxHeaders < (f :: fs).length) :
    parseRequest (head.block (f :: fs) ++ 0 :: z) body = .error .table := by
  obtain ⟨hp, -⟩ := requestLine_full z body (headerEnd_block head f fs) (readLine_block head (f :: fs))
  obtain ⟨hs, hall, hfuel⟩ := afterLine_block head (f :: fs) z body
  have hmore : httpMaxHeaders < ([] : List HttpHeader).length +
      ((f :: fs).map fun f => (f.line, (10 : UInt8))).length := by
    rw [List.length_nil, Nat.zero_add, List.length_map]
    exact hlines
  have hheaders := parseHeaders_table hall hs rfl (Nat.zero_le _) hmore hfuel
  rw [parseRequest, hp, ok_bind, if_neg (by exact Bool.false_ne_true)]
  simp only [afterLine] at hheaders ⊢
  rw [hheaders, error_bind]

/-- The parser on a block with header lines. -/
theorem parse_block (body : Nat) (hlines : (f :: fs).length ≤ httpMaxHeaders)
    (hzero : ∀ b ∈ z, b = 0) :
    parseRequest (head.block (f :: fs) ++ 0 :: z) body =
      .ok (head.parsed f fs body ([13, 10] ++ 0 :: z)) := by
  obtain ⟨hp, -, h0, hver, -⟩ :=
    requestLine_full z body (headerEnd_block head f fs) (readLine_block head (f :: fs))
  have hver0 := version_noNul hver
  have hver63 := version_noQuery hver
  have hnil : textHttp ++ head.version ≠ [] := by simp [textHttp]
  obtain ⟨hs, hall, hfuel⟩ := afterLine_block head (f :: fs) z body
  have hmap : ((f :: fs).map fun f => (f.line, (10 : UInt8))).map Prod.fst =
      (f :: fs).map HeaderField.line := by
    rw [List.map_map]
    rfl
  have hroom : ([] : List HttpHeader).length +
      ((f :: fs).map fun f => (f.line, (10 : UInt8))).length ≤ httpMaxHeaders := by
    rw [List.length_nil, Nat.zero_add, List.length_map]
    exact hlines
  have hheaders := parseHeaders_layout hall isRest_empty hs rfl hroom hfuel
  rw [hmap, List.nil_append] at hheaders
  -- the search for the query, and the decoding
  obtain ⟨tail, htail⟩ := layout_field f (fs.map HeaderField.line) ([13, 10] ++ 0 :: z)
  obtain ⟨s', hsplit⟩ := splitUri_block head f tail rfl (Nat.lt_succ_self _)
  rw [← htail, ← List.map_cons] at hsplit
  have hlast : (head.target ++ 0 :: (textHttp ++ head.version ++ 0 :: ([] ++ 10 ::
      (layout ((f :: fs).map HeaderField.line) ++ ([13, 10] ++ 0 :: z))))).getLast? = some 0 := by
    rw [← List.append_assoc (layout _)]
    exact getLast_line hzero
  have hsettled := decodeTarget_settled (a := head.method ++ [0]) (i := head.method.length + 1)
    rfl (by simp) hlast
  have hbehind : (if head.target = [] ∨ 63 ∈ head.target then
      some ([] ++ 10 :: (layout ((f :: fs).map HeaderField.line) ++ ([13, 10] ++ 0 :: z)))
      else editBehind ([] ++ 10 :: (layout ((f :: fs).map HeaderField.line) ++ ([13, 10] ++ 0 :: z)))) =
      some ([] ++ 10 :: (layout ((f :: fs).map HeaderField.line) ++ ([13, 10] ++ 0 :: z))) := by
    have hnone : 63 ∉ 10 :: f.name := by simp [f.name_noQuery]
    rw [List.map_cons, htail, List.nil_append, ← List.cons_append, editBehind_pair,
      settle_of_noQuery hnone, ite_self]
  rw [settled_behind h0 hver0 hver63 hnil, hbehind, Option.map_some] at hsettled
  obtain ⟨q, hq, -⟩ := hsettled
  rw [← cutLine_append, ← cutLine_append] at hq
  obtain rfl := decodeTarget_query hsplit hq
  exact parse_parts hp rfl hheaders rfl hq

section Strings

variable (head f fs) (body : Nat) (r : List UInt8)

theorem parsed_strings :
    Strings (head.parsed f fs body r) (uriText head.target) (targetQuery head.target)
      head.version where
  uri := by
    refine ⟨_, rfl, ?_⟩
    rw [RequestHead.parsed, cutLine_append, str_at rfl (by simp) (by simp),
      cstr_decodedTarget head.target_noNul]
  query := by
    refine ⟨_, rfl, ?_⟩
    rw [RequestHead.queryPointer, targetQuery]
    cases hcut : cutAt 63 head.target with
    | none =>
      -- the NUL behind the name of the first header
      obtain ⟨tail, htail⟩ := layout_field f (fs.map HeaderField.line) r
      refine str_of_load (load_at (a := cutLine head.method (decodedTarget head.target)
        head.version [] ++ f.name) (r := 0 :: tail) ?_ ?_)
      · rw [RequestHead.parsed, List.map_cons, htail, List.append_assoc]
      · simp only [cutLine, List.length_append, List.length_cons, length_decodedTarget]
    | some p =>
      obtain ⟨x, y⟩ := p
      refine (str_at (a := head.method ++ [0] ++ urlDecode x ++ [0]) (x := urlDecode y ++ 0 ::
        (textHttp ++ head.version ++ 0 :: ([] ++ 10 ::
          (layout ((f :: fs).map HeaderField.line) ++ r)))) ?_ ?_ (by simp)).trans ?_
      · simp [RequestHead.parsed, cutLine_append, decodedTarget, hcut]
      · simp only [List.length_append, List.length_cons, List.length_nil, length_urlDecode]
      · rw [cstr_append_zero]
  version := by
    refine ⟨_, rfl, ?_⟩
    rw [str_at (a := head.method ++ 0 :: (decodedTarget head.target ++ 0 :: textHttp))
      (x := head.version ++ 0 :: ([] ++ 10 :: (layout ((f :: fs).map HeaderField.line) ++ r)))
      (by simp [RequestHead.parsed, cutLine]) ?_ (by simp), cstr_append ?_]
    · exact fun h => version_noNul head.version_ok (List.mem_append_right _ h)
    · simp only [List.length_append, List.length_cons, length_decodedTarget, textHttp,
        List.length_nil]
      omega

theorem parsed_denotes :
    Parsed (head.parsed f fs body r) head.method ((f :: fs).map HeaderField.field) where
  supported := rfl
  method := by
    refine ⟨0, rfl, ?_⟩
    rw [RequestHead.parsed, cutLine_append]
    exact str_method head.method_noNul
  uri := by
    obtain ⟨i, hi, huri⟩ := (parsed_strings head f fs body r).uri
    exact ⟨i, _, hi, huri⟩
  version _ := by
    obtain ⟨i, hi, hversion⟩ := (parsed_strings head f fs body r).version
    exact ⟨i, _, hi, hversion⟩
  headers := by
    rw [← map_fieldOf]
    refine pointers_denote (r := r) (fun l hl => ?_) rfl ?_
    · obtain ⟨f', -, rfl⟩ := List.mem_map.mp hl
      exact isLine_line f'
    · simp only [cutLine, List.length_append, List.length_cons, length_decodedTarget]

end Strings

end Block

end Tst
