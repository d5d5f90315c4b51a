import Tst.Http.Request

/-!
# Header blocks

What a header block says, as a function of its bytes, with none of the parser's pointers:
how far the request line goes, the header lines, and the names under which their values are
found afterwards.

## Main definitions

- `readLine` — the request line
- `headerLines`, `fieldOf` — the header lines
- `scan` — where the query begins
- `fields`, `lookup` — the names and values that are found
- `handled` — the blocks that are parsed without a fault
-/

namespace Tst

open CString

/-- How far a request line goes. -/
inductive RequestLine
  /-- there are not two spaces before the first NUL -/
  | incomplete
  /-- a NUL follows the second space -/
  | bare (method target : List UInt8)
  /-- something other than a supported version follows the second space -/
  | unsupported
  /-- the byte after the version is lost; `junk` is what follows it on the line, and `rest`
  what follows the line -/
  | full (method target version junk rest : List UInt8)
  deriving DecidableEq, Repr

/-- The text begins with a supported version. -/
def beginsVersion (r : List UInt8) : Prop :=
  r.take 5 = textHttp ∧ ((r.drop 5).take 3 = text10 ∨ (r.drop 5).take 3 = text11)

instance (r : List UInt8) : Decidable (beginsVersion r) := inferInstanceAs (Decidable (_ ∧ _))

/-- The request line of a block. -/
def readLine (h : List UInt8) : RequestLine :=
  match cutAt 32 h with
  | none => .incomplete
  | some (method, r) =>
    match cutAt 32 r with
    | none => .incomplete
    | some (target, r) =>
      if r.head? = some 0 then .bare method target
      else if beginsVersion r then
        .full method target ((r.drop 5).take 3) ((r.drop 9).takeWhile (· ≠ 10))
          (((r.drop 9).dropWhile (· ≠ 10)).drop 1)
      else .unsupported

/-- The header lines: each is what comes before a CR that is not its first byte, and the
byte after the CR is lost. -/
def headerLines : Nat → List UInt8 → List (List UInt8)
  | 0, _ => []
  | _ + 1, [] => []
  | fuel + 1, b :: t =>
    if b = 0 then []
    else
      match cutAt 13 t with
      | none => []
      | some (x, r) => (b :: x) :: headerLines fuel (r.drop 1)

/-- A name, and a value if there is one. -/
structure Field where
  name : List UInt8
  value : Option (List UInt8)
  deriving DecidableEq, Repr

/-- The name and value of a header line: what comes before a `:` that is not the first byte,
and what comes after the byte after it. -/
def fieldOf (line : List UInt8) : Field :=
  match line with
  | [] => ⟨[], none⟩
  | b :: l =>
    match cutAt 58 l with
    | none => ⟨b :: l, none⟩
    | some (x, v) => ⟨b :: x, some (v.drop 1)⟩

/-- Where the query begins in the bytes from the target on: at a `?`, or nowhere when two
NULs in a row, or a NUL at the start, come first. Without either the search runs out of the
bytes. -/
def scan : Bool → List UInt8 → Option (Option Nat)
  | _, [] => none
  | afterNul, b :: l =>
    if b = 0 then if afterNul then some none else (scan true l).map (Option.map (· + 1))
    else if b = 63 then some (some 0)
    else (scan false l).map (Option.map (· + 1))

/-- The URI string: the target up to a `?`, decoded. -/
def uriText (target : List UInt8) : List UInt8 := cstr (urlDecode (target.takeWhile (· ≠ 63)))

/-- The query string, when the query is looked for in these bytes. -/
def queryText (v : List UInt8) : List UInt8 :=
  match scan true v with
  | some (some k) => cstr (urlDecode (cstr (v.drop (k + 1))))
  | _ => []

/-- The bytes behind the version that the search for the query can reach: the rest of the
line, and the name of the first header line. -/
def behindVersion (junk rest : List UInt8) : List UInt8 :=
  junk ++ 10 :: match headerLines rest.length rest with
    | [] => rest
    | line :: _ => (fieldOf line).name

/-- The query string of a block: the one of the target, or one found behind the version. -/
def blockQuery (target junk rest : List UInt8) : List UInt8 :=
  if 63 ∈ target then queryText (target ++ [0, 0]) else queryText (behindVersion junk rest ++ [0, 0])

/-- The bytes between the version and the end of the first header name, when the query has
been looked for among them and decoded. -/
def settle (g : List UInt8) : List UInt8 :=
  match scan true (g ++ [0, 0]) with
  | some (some k) =>
    let query := cstr (g.drop (k + 1))
    g.take k ++ 0 :: (urlDecode query ++ g.drop (k + 1 + query.length))
  | _ => g

/-- The name of the first header line, when the query has been looked for. A target without
`?` is not the end of the search. -/
def firstName (target junk name : List UInt8) : List UInt8 :=
  if target = [] ∨ 63 ∈ target then name
  else cstr ((settle (junk ++ 10 :: name)).drop (junk.length + 1))

/-- The names and values that `get_httpheader` finds in the header lines. -/
def fields (target junk : List UInt8) (lines : List (List UInt8)) : List Field :=
  match lines.map fieldOf with
  | [] => []
  | f :: fs => { f with name := firstName target junk f.name } :: fs

/-- The value of the first field of that name, or the empty string. -/
def lookup (fs : List Field) (name : List UInt8) : Option (List UInt8) :=
  match fs.find? (·.name = name) with
  | none => some []
  | some f => f.value

/-- The search for the query runs out of a buffer of `sLen` bytes: the block fills it but for
the NUL, there is no header line, and from the target on there is neither a `?` nor a place
where the search ends. -/
def overrun (sLen : Nat) (h target junk rest : List UInt8) : Prop :=
  h.length + 1 = sLen ∧ headerLines rest.length rest = [] ∧ target ≠ [] ∧ 63 ∉ target ∧
    scan true (junk ++ 10 :: (rest ++ [0])) = none

instance (sLen : Nat) (h target junk rest : List UInt8) :
    Decidable (overrun sLen h target junk rest) := inferInstanceAs (Decidable (_ ∧ _))

/-- The headers that are looked up for an upgrade have values. -/
def upgradeOk (fs : List Field) : Prop :=
  ∃ connection, lookup fs textConnection = some connection ∧
    (connection = textUpgrade → ∃ upgrade, lookup fs textUpgrade = some upgrade ∧
      (upgrade = textWebsocket → lookup fs textSecWebSocketKey ≠ none))

/-- Every header that is looked up has a value: `Content-Length`; then, without a body and
with a method other than `OPTIONS`, the headers of an upgrade. -/
def lookupsOk (method : List UInt8) (fs : List Field) : Prop :=
  ∃ length, lookup fs textContentLength = some length ∧
    (atoi length = 0 → method ≠ textOptions → upgradeOk fs)

/-- The names and values of a block. -/
def blockFields (h : List UInt8) : List Field :=
  match readLine h with
  | .full _ target _ junk rest => fields target junk (headerLines rest.length rest)
  | _ => []

/-- The length of the body that a block announces. -/
def declaredLength (h : List UInt8) : Int :=
  ((lookup (blockFields h) textContentLength).map atoi).getD 0

/-- The header blocks that `http()` handles in a buffer of `sLen` bytes. -/
def handled (sLen : Nat) (h : List UInt8) : Prop :=
  match readLine h with
  | .incomplete => False
  | .bare _ _ => True
  | .unsupported => True
  | .full method target _ junk rest =>
    (headerLines rest.length rest).length ≤ httpMaxHeaders ∧
      ¬ overrun sLen h target junk rest ∧
      lookupsOk method (fields target junk (headerLines rest.length rest))

end Tst
