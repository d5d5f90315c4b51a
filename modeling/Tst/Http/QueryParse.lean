import Mathlib.Data.List.TakeWhile
import Tst.Http.QueryString

/-!
# Query strings in segments

A query is a list of segments joined by `&`, and a segment `name=value` is to stand for a
parameter. `CQueryString::Parse` looks for the next `=` in all of the rest, and ends at the first
thing that it does not expect.

## Main definitions

- `wellFormed`, `plainValue` — the parameter of a segment, and the value of a name in a query
- `readings` — for each segment, its parameter and what the loop stores for it
- `Harmless` — no segment that is read wrongly changes the value of a name

## Main results

- `entries_readings` — the loop stores what `readings` says
- `parse_segments_iff` — the map holds the plain values exactly when the wrong readings are
  harmless
-/

namespace Tst

open CString CQueryString

/-- What is before the first `=` of a segment. -/
def namePart (s : List UInt8) : List UInt8 := s.takeWhile (· ≠ 61)

/-- What is behind the first `=` of a segment. -/
def valuePart (s : List UInt8) : List UInt8 := (s.dropWhile (· ≠ 61)).tail

/-- A segment of a query, whose parts fit into the arrays of `Parse`. -/
structure IsSegment (s : List UInt8) : Prop where
  noNul : 0 ∉ s
  noAmp : 38 ∉ s
  name_short : (namePart s).length < 128
  value_short : (valuePart s).length < 128

instance (s : List UInt8) : Decidable (IsSegment s) :=
  decidable_of_iff (0 ∉ s ∧ 38 ∉ s ∧ (namePart s).length < 128 ∧ (valuePart s).length < 128)
    ⟨fun ⟨h0, h38, hn, hv⟩ => ⟨h0, h38, hn, hv⟩,
      fun h => ⟨h.noNul, h.noAmp, h.name_short, h.value_short⟩⟩

/-- The parameter of a segment `name=value`, if the name is not empty. -/
def wellFormed (s : List UInt8) : Option (List UInt8 × List UInt8) :=
  if 61 ∈ s ∧ namePart s ≠ [] then some (namePart s, valuePart s) else none

/-- The value that is last under a name, or the empty string. -/
def lastValue (l : List (List UInt8 × List UInt8)) (k : List UInt8) : List UInt8 :=
  ((l.filter (·.1 = k)).getLast?.map Prod.snd).getD []

/-- The value of the last well-formed segment named `k`, or the empty string. -/
def plainValue (segs : List (List UInt8)) (k : List UInt8) : List UInt8 :=
  lastValue (segs.filterMap wellFormed) k

/-- A segment: its parameter, and what the loop stores for it. -/
structure Reading where
  plain : Option (List UInt8 × List UInt8)
  stored : Option (List UInt8 × List UInt8)
  deriving DecidableEq

/-- How the segments are read. Those directly before, which have no `=`, go into the name; `pre`
is their text. A `=` with nothing before it cuts off the rest, and a value that is empty at the end
is not stored. -/
def readings : List UInt8 → Bool → List (List UInt8) → List Reading
  | _, _, [] => []
  | pre, cut, s :: segs =>
    if 61 ∈ s then
      let cut := cut || (pre ++ namePart s).isEmpty
      let stored :=
        if cut ∨ valuePart s = [] ∧ segs = [] then none
        else some ((pre ++ namePart s).take (maxParse - 1), valuePart s)
      ⟨wellFormed s, stored⟩ :: readings [] cut segs
    else ⟨none, none⟩ :: readings (pre ++ s ++ [38]) cut segs

/-- A name that a segment has, or under which it is stored. -/
def Reading.Names (r : Reading) (k : List UInt8) : Prop :=
  r.plain.map Prod.fst = some k ∨ r.stored.map Prod.fst = some k

/-- Wherever a segment is read wrongly, the last value stored under its name, and under the name
under which it is stored, is the last one of that name. -/
def Harmless (segs : List (List UInt8)) : Prop :=
  ∀ r ∈ readings [] false segs, r.plain ≠ r.stored → ∀ k, r.Names k →
    lastValue ((readings [] false segs).filterMap Reading.stored) k = plainValue segs k

-- ════════════════════════════════════════════════════════════════════════
-- The values of a name
-- ════════════════════════════════════════════════════════════════════════

section Values

variable {l : List (List UInt8 × List UInt8)} {map : CQueryString} {k : List UInt8}
  {rs : List Reading} {segs : List (List UInt8)} {pre : List UInt8} {cut : Bool}

/-- The map holds the last value stored under each name. -/
theorem get_foldl_put (l : List (List UInt8 × List UInt8)) (k : List UInt8) :
    CQueryString.get (l.foldl put fun _ => none) k = lastValue l k := by
  have hlook : ∀ map : CQueryString, l.foldl put map k =
      ((l.filter (·.1 = k)).getLast?.map Prod.snd).or (map k) := by
    induction l with
    | nil => exact fun _ => rfl
    | cons e l ih =>
      intro map
      rw [List.foldl_cons, ih, put]
      by_cases hk : e.1 = k
      · subst hk
        rw [Function.update_self, List.filter_cons_of_pos (by simp)]
        cases l.filter (·.1 = e.1) with
        | nil => rfl
        | cons e' l' => simp [List.getLast?_cons]
      · rw [Function.update_of_ne (Ne.symm hk), List.filter_cons_of_neg (by simpa using hk)]
  rw [CQueryString.get, lastValue, hlook, Option.or_none]

/-- The readings hold the parameter of each segment. -/
theorem plain_readings (pre : List UInt8) (cut : Bool) (segs : List (List UInt8)) :
    (readings pre cut segs).filterMap Reading.plain = segs.filterMap wellFormed := by
  induction segs generalizing pre cut with
  | nil => rfl
  | cons s segs ih =>
    rw [readings]
    split
    · simp only [List.filterMap_cons, ih]
    · next h61 =>
      have hnone : wellFormed s = none := if_neg fun h => h61 h.1
      simp only [List.filterMap_cons, ih, hnone]

/-- A reading that does not name `k` does not matter for `k`. -/
theorem filter_filterMap_cons {f : Reading → Option (List UInt8 × List UInt8)} {r : Reading}
    (h : (f r).map Prod.fst ≠ some k) :
    ((r :: rs).filterMap f).filter (·.1 = k) = (rs.filterMap f).filter (·.1 = k) := by
  cases hf : f r with
  | none => rw [List.filterMap_cons_none hf]
  | some e =>
    rw [hf] at h
    rw [List.filterMap_cons_some hf, List.filter_cons_of_neg (by simpa using h)]

/-- Where no wrong reading names `k`, the values under `k` are the same. -/
theorem filter_stored (h : ∀ r ∈ rs, r.plain ≠ r.stored → ¬ r.Names k) :
    (rs.filterMap Reading.stored).filter (·.1 = k) =
      (rs.filterMap Reading.plain).filter (·.1 = k) := by
  induction rs with
  | nil => rfl
  | cons r rs ih =>
    have hrest := ih fun r hr => h r (List.mem_cons_of_mem _ hr)
    by_cases hsame : r.plain = r.stored
    · cases hstored : r.stored with
      | none =>
        rw [List.filterMap_cons_none hstored, List.filterMap_cons_none (hsame.trans hstored)]
        exact hrest
      | some e =>
        rw [List.filterMap_cons_some hstored, List.filterMap_cons_some (hsame.trans hstored),
          List.filter_cons, List.filter_cons, hrest]
    · obtain ⟨hplain, hstored⟩ := not_or.mp (h r (List.mem_cons_self ..) hsame)
      rw [filter_filterMap_cons hplain, filter_filterMap_cons hstored, hrest]

/-- What is stored gives the plain values exactly when the wrong readings are harmless. -/
theorem harmless_iff (segs : List (List UInt8)) :
    (∀ k, lastValue ((readings [] false segs).filterMap Reading.stored) k = plainValue segs k) ↔
      Harmless segs := by
  constructor
  · exact fun h r _ _ k _ => h k
  · intro h k
    by_cases hnamed : ∃ r ∈ readings [] false segs, r.plain ≠ r.stored ∧ r.Names k
    · obtain ⟨r, hr, hwrong, hk⟩ := hnamed
      exact h r hr hwrong k hk
    · have hnone : ∀ r ∈ readings [] false segs, r.plain ≠ r.stored → ¬ r.Names k :=
        fun r hr hwrong hk => hnamed ⟨r, hr, hwrong, hk⟩
      rw [plainValue, ← plain_readings [] false segs, lastValue, lastValue, filter_stored hnone]

/-- Behind a cut nothing is stored. -/
theorem stored_cut (pre : List UInt8) (segs : List (List UInt8)) :
    (readings pre true segs).filterMap Reading.stored = [] := by
  induction segs generalizing pre with
  | nil => rfl
  | cons s segs ih =>
    rw [readings]
    split
    · simp [ih]
    · simp [ih]

end Values

-- ════════════════════════════════════════════════════════════════════════
-- The loop
-- ════════════════════════════════════════════════════════════════════════

section Loop

variable {s pre tail : List UInt8} {segs : List (List UInt8)} {fuel : Nat}

/-- A segment with a `=` is cut at its first one. -/
theorem segment_eq (h61 : 61 ∈ s) : s = namePart s ++ 61 :: valuePart s := by
  have hne : s.dropWhile (· ≠ 61) ≠ [] := by
    intro h
    have hall := List.dropWhile_eq_nil_iff.mp h 61 h61
    exact absurd hall (by decide)
  obtain ⟨b, l, hl⟩ := List.exists_cons_of_ne_nil hne
  have hb : b = 61 := by
    have hhead := List.head?_dropWhile_not (· ≠ 61) s
    rw [hl] at hhead
    simpa using hhead
  conv_lhs => rw [← List.takeWhile_append_dropWhile (p := (· ≠ 61)) (l := s)]
  rw [namePart, valuePart, hl, hb, List.tail_cons]

theorem namePart_noEq (s : List UInt8) : 61 ∉ namePart s := by
  intro h
  have hne := List.mem_takeWhile_imp h
  exact absurd hne (by decide)

theorem namePart_subset (s : List UInt8) : namePart s ⊆ s := List.takeWhile_subset _

theorem valuePart_subset (s : List UInt8) : valuePart s ⊆ s := fun _ h =>
  List.dropWhile_subset _ (List.mem_of_mem_tail h)

/-- What is behind the `&` of a segment, if there is one. -/
def behindAmp (segs : List (List UInt8)) : Option (List UInt8) :=
  if segs = [] then none else some ([38].intercalate segs)

theorem intercalate_segment (h61 : 61 ∈ s) (segs : List (List UInt8)) :
    [38].intercalate (s :: segs) =
      namePart s ++ 61 :: (valuePart s ++ (behindAmp segs).elim [] (38 :: ·)) := by
  have hs := segment_eq h61
  cases segs with
  | nil =>
    rw [List.intercalate_singleton, behindAmp, if_pos rfl, Option.elim_none, List.append_nil]
    exact hs
  | cons s' segs =>
    rw [List.intercalate_cons_cons, behindAmp, if_neg (List.cons_ne_nil _ _), Option.elim_some]
    conv_lhs => rw [hs]
    simp only [List.append_assoc, List.cons_append, List.nil_append]

/-- The loop stores what `readings` says. -/
theorem entries_readings (hsegs : ∀ s ∈ segs, IsSegment s) (h61 : 61 ∉ pre) (h0 : 0 ∉ pre)
    (hfuel : (pre ++ [38].intercalate segs).length < fuel) :
    queryEntries fuel (pre ++ [38].intercalate segs) =
      (readings pre false segs).filterMap Reading.stored := by
  induction segs generalizing pre fuel with
  | nil =>
    obtain ⟨fuel, rfl⟩ := Nat.exists_eq_succ_of_ne_zero (Nat.ne_zero_of_lt hfuel)
    rw [List.intercalate_nil, List.append_nil, queryEntries, splitParam_noEq h61]
    rfl
  | cons s segs ih =>
    obtain ⟨fuel, rfl⟩ := Nat.exists_eq_succ_of_ne_zero (Nat.ne_zero_of_lt hfuel)
    have hs := hsegs s (List.mem_cons_self ..)
    have hrest : ∀ s ∈ segs, IsSegment s := fun x hx => hsegs x (List.mem_cons_of_mem _ hx)
    rw [readings]
    split
    · next hmem =>
      have hn0 : 0 ∉ pre ++ namePart s := fun h =>
        (List.mem_append.mp h).elim h0 fun h => hs.noNul (namePart_subset s h)
      have hn61 : 61 ∉ pre ++ namePart s := fun h =>
        (List.mem_append.mp h).elim h61 (namePart_noEq s)
      have hv0 : 0 ∉ valuePart s := fun h => hs.noNul (valuePart_subset s h)
      have hv38 : 38 ∉ valuePart s := fun h => hs.noAmp (valuePart_subset s h)
      have hvalue : (valuePart s).take (maxParse - 1) = valuePart s :=
        List.take_of_length_le (Nat.le_of_lt_succ hs.value_short)
      rw [intercalate_segment hmem, ← List.append_assoc] at hfuel ⊢
      rw [queryEntries, splitParam_at (behindAmp segs) hn61 hv38 hn0 hv0]
      by_cases hcut : pre ++ namePart s = []
      · -- the loop ends at the `=`
        simp [hcut, stored_cut]
      · by_cases hlast : valuePart s = [] ∧ segs = []
        · -- the loop ends behind the `=`
          obtain ⟨hnil, rfl⟩ := hlast
          simp [hcut, hnil, behindAmp, readings]
        · have hmore : ¬ (pre ++ namePart s = [] ∨
              valuePart s ++ (behindAmp segs).elim [] (38 :: ·) = []) := by
            rintro (h | h)
            · exact hcut h
            · obtain ⟨hnil, helim⟩ := List.append_eq_nil_iff.mp h
              refine hlast ⟨hnil, ?_⟩
              by_contra hsegs
              simp [behindAmp, hsegs] at helim
          have hkeeps : (false || (pre ++ namePart s).isEmpty) = false := by
            rw [Bool.false_or, List.isEmpty_eq_false_iff]
            exact hcut
          have hnot : ¬ (false = true ∨ valuePart s = [] ∧ segs = []) :=
            not_or.mpr ⟨Bool.false_ne_true, hlast⟩
          rw [if_neg hmore, hkeeps]
          simp only [if_neg hnot, List.filterMap_cons, hvalue]
          congr 1
          cases segs with
          | nil => rfl
          | cons s' segs =>
            have hbehind : behindAmp (s' :: segs) = some ([38].intercalate (s' :: segs)) :=
              if_neg (List.cons_ne_nil _ _)
            rw [hbehind] at hfuel ⊢
            refine ih hrest List.not_mem_nil List.not_mem_nil ?_
            simp only [Option.elim_some, List.length_append, List.length_cons] at hfuel
            rw [List.nil_append]
            omega
    · next hmem =>
      rw [List.filterMap_cons_none rfl]
      cases segs with
      | nil =>
        have hnone : 61 ∉ pre ++ s := fun h => (List.mem_append.mp h).elim h61 hmem
        rw [List.intercalate_singleton, queryEntries, splitParam_noEq hnone]
        rfl
      | cons s' segs =>
        have htext : pre ++ [38].intercalate (s :: s' :: segs) =
            (pre ++ s ++ [38]) ++ [38].intercalate (s' :: segs) := by
          rw [List.intercalate_cons_cons]
          simp only [List.append_assoc]
        rw [htext] at hfuel ⊢
        exact ih hrest (by simp [h61, hmem]) (by simp [h0, hs.noNul]) hfuel

end Loop

-- ════════════════════════════════════════════════════════════════════════
-- The function
-- ════════════════════════════════════════════════════════════════════════

theorem noNul_intercalate {segs : List (List UInt8)} (h : ∀ s ∈ segs, IsSegment s) :
    0 ∉ [38].intercalate segs := by
  induction segs with
  | nil => exact List.not_mem_nil
  | cons s segs ih =>
    have hs := (h s (List.mem_cons_self ..)).noNul
    have hrest := ih fun x hx => h x (List.mem_cons_of_mem _ hx)
    cases segs with
    | nil =>
      rw [List.intercalate_singleton]
      exact hs
    | cons s' segs =>
      rw [List.intercalate_cons_cons]
      simp [hs, hrest]

/-- `Parse` stores what `readings` says. -/
theorem parse_segments {segs : List (List UInt8)} (h : ∀ s ∈ segs, IsSegment s) (a : Arrays) :
    CQueryString.parse (fun _ => none) ([38].intercalate segs) 0 a =
      .ok (((readings [] false segs).filterMap Reading.stored).foldl put fun _ => none) := by
  have hnow : ∀ b ∈ [38].intercalate segs, Untouched 0 b := fun b hb =>
    ⟨fun h0 => noNul_intercalate h (h0 ▸ hb), fun hm => absurd rfl hm⟩
  have hentries : queryEntries (([38].intercalate segs).length + 1) ([] ++ [38].intercalate segs) =
      (readings [] false segs).filterMap Reading.stored :=
    entries_readings h List.not_mem_nil List.not_mem_nil (Nat.lt_succ_self _)
  rw [List.nil_append] at hentries
  rw [CQueryString.parse, parseLoop_untouched hnow a.name_length a.value_length
    (Nat.lt_succ_self _), hentries]

/-- After `Parse(q, NONE)` on an empty map, every name has the value of the last well-formed segment
with that name exactly when the segments that are read wrongly are harmless. -/
theorem parse_segments_iff (segs : List (List UInt8)) (a : Arrays)
    (hsegs : ∀ s ∈ segs, IsSegment s) :
    (∃ map, CQueryString.parse (fun _ => none) ([38].intercalate segs) 0 a = .ok map ∧
      ∀ k, map.get k = plainValue segs k) ↔ Harmless segs := by
  rw [parse_segments hsegs, ← harmless_iff]
  constructor
  · rintro ⟨map, hmap, hget⟩ k
    obtain rfl := Except.ok.inj hmap
    rw [← get_foldl_put, hget]
  · intro h
    refine ⟨_, rfl, fun k => ?_⟩
    rw [get_foldl_put, h]

/-- Segments that are all well-formed are read as they are, up to an empty value at the end. -/
theorem readings_wellFormed {segs : List (List UInt8)}
    (h : ∀ s ∈ segs, IsSegment s ∧ (wellFormed s).isSome)
    (hlast : ∀ s ∈ segs.getLast?, valuePart s ≠ []) :
    ∀ r ∈ readings [] false segs, r.plain = r.stored := by
  induction segs with
  | nil => exact fun r hr => absurd hr List.not_mem_nil
  | cons s segs ih =>
    obtain ⟨hs, hsome⟩ := h s (List.mem_cons_self ..)
    have hform : 61 ∈ s ∧ namePart s ≠ [] := by
      by_contra hnot
      rw [wellFormed, if_neg hnot] at hsome
      exact absurd hsome (by simp)
    have hname : (namePart s).take (maxParse - 1) = namePart s :=
      List.take_of_length_le (Nat.le_of_lt_succ hs.name_short)
    have hmore : ¬ (false = true ∨ valuePart s = [] ∧ segs = []) := by
      rintro (hfalse | ⟨hnil, rfl⟩)
      · exact Bool.false_ne_true hfalse
      · exact hlast s rfl hnil
    have hkeeps : (false || ([] ++ namePart s).isEmpty) = false := by
      rw [Bool.false_or, List.nil_append, List.isEmpty_eq_false_iff]
      exact hform.2
    have hrest : ∀ x ∈ segs.getLast?, valuePart x ≠ [] := by
      intro x hx
      refine hlast x ?_
      rw [List.getLast?_cons, Option.mem_some, Option.mem_def.mp hx]
      rfl
    intro r hr
    rw [readings, if_pos hform.1, hkeeps] at hr
    obtain rfl | hr := List.mem_cons.mp hr
    · rw [if_neg hmore, List.nil_append, hname, wellFormed, if_pos hform]
    · exact ih (fun x hx => h x (List.mem_cons_of_mem _ hx)) hrest r hr

theorem harmless_wellFormed {segs : List (List UInt8)}
    (h : ∀ s ∈ segs, IsSegment s ∧ (wellFormed s).isSome)
    (hlast : ∀ s ∈ segs.getLast?, valuePart s ≠ []) : Harmless segs :=
  fun r hr hwrong => absurd (readings_wellFormed h hlast r hr) hwrong

/-- `a=1&b=2=3&a=4`. -/
theorem parse_segments_three :
    ∃ map, CQueryString.parse (fun _ => none)
        ([38].intercalate [[97, 61, 49], [98, 61, 50, 61, 51], [97, 61, 52]]) 0 zeroArrays = .ok map ∧
      ∀ k, map.get k = plainValue [[97, 61, 49], [98, 61, 50, 61, 51], [97, 61, 52]] k :=
  (parse_segments_iff [[97, 61, 49], [98, 61, 50, 61, 51], [97, 61, 52]] zeroArrays
    (by decide)).mpr (harmless_wellFormed (by decide) (by decide))

/-- In `a&b=1` the parameter `b` is not found. -/
theorem parse_segments_merged :
    ¬ ∀ (segs : List (List UInt8)) (a : Arrays), (∀ s ∈ segs, IsSegment s) →
      ∃ map, CQueryString.parse (fun _ => none) ([38].intercalate segs) 0 a = .ok map ∧
        ∀ k, map.get k = plainValue segs k := by
  intro h
  obtain ⟨map, hmap, hget⟩ := h [[97], [98, 61, 49]] zeroArrays (by decide)
  rw [parse_segments (by decide)] at hmap
  obtain rfl := Except.ok.inj hmap
  have hb := hget [98]
  rw [get_foldl_put] at hb
  exact absurd hb (by decide)

end Tst
