import Tst.Http.CheckEscape
import Tst.Http.QueryParse

/-!
# Parameters without blanks and line breaks

With a flag set, `Parse` sends each name and each value through `CheckEscape` before it stores
them. All the routes read their parameters in this way.

## Main definitions

- `cleaned` — a name and its value, cut and filtered

## Main results

- `parse_flags` — the map of any text, for all flags
-/

namespace Tst

open CString CQueryString

/-- A name and its value when `CheckEscape` has been through them. -/
def cleaned (m : UInt8) (e : List UInt8 × List UInt8) : List UInt8 × List UInt8 :=
  (cutFilter m e.1, cutFilter m e.2)

section Flags

variable {m b : UInt8} {x now szName szValue : List UInt8} {map : CQueryString} {fuel : Nat}
  {e : List UInt8 × List UInt8}

theorem mem_cutFilter (h : b ∈ cutFilter m x) : b ∈ x ∧ ¬ IsBlank m b ∧ ¬ IsBreak m b := by
  obtain ⟨hkept, hblank⟩ := List.mem_filter.mp h
  refine ⟨List.takeWhile_subset _ hkept, of_decide_eq_true hblank, ?_⟩
  have hbreak := List.mem_takeWhile_imp hkept
  simpa using hbreak

theorem length_cutFilter_le (m : UInt8) (x : List UInt8) : (cutFilter m x).length ≤ x.length :=
  (List.length_filter_le ..).trans (List.takeWhile_prefix _).length_le

/-- Without a flag there is nothing to be cut or deleted. -/
theorem cutFilter_zero (x : List UInt8) : cutFilter 0 x = x := by
  simp [cutFilter, IsBreak, IsBlank]

/-- The copy of a name or of a value, and what is made of it. -/
theorem escaped_copyPart (m : UInt8) {sz : List UInt8} (hlen : sz.length = maxParse) (hx : 0 ∉ x) :
    ∃ sz', escaped m (copyPart sz x) = .ok sz' ∧ sz'.length = maxParse ∧
      cstr sz' = cutFilter m (x.take (maxParse - 1)) := by
  have htake : 0 ∉ x.take (maxParse - 1) := fun h => hx (List.mem_of_mem_take h)
  have hcopied : (copyPart sz x).length = maxParse := by
    simp only [copyPart, List.length_append, List.length_take, List.length_cons, List.length_drop,
      hlen, maxParse]
    omega
  by_cases hm : m = 0
  · refine ⟨copyPart sz x, if_pos hm, hcopied, ?_⟩
    rw [hm, cutFilter_zero]
    exact cstr_append htake
  · obtain ⟨y, hylen, hmem, hcstr, hloop⟩ := checkLoop_text m htake
    have hfuel : (x.take (maxParse - 1)).length < 2 * (copyPart sz x).length + 1 := by
      rw [hcopied, List.length_take]
      omega
    have hcheck := hloop [] (sz.drop (min x.length (maxParse - 1) + 1)) _ hfuel
    refine ⟨_, (if_neg hm).trans hcheck, ?_, ?_⟩
    · have hsame : y.length + (sz.drop (min x.length (maxParse - 1) + 1)).length =
          (copyPart sz x).length := by
        rw [copyPart, List.length_append, List.length_cons, hylen]
        omega
      rw [List.nil_append, List.length_append, hsame, hcopied]
    · obtain ⟨z, w, rfl, -⟩ := List.eq_append_cons_of_mem hmem
      rw [List.nil_append, List.append_assoc, List.cons_append, cstr_append_zero,
        ← cstr_append_zero z w, hcstr]

/-- The loop stores the entries, cleaned. -/
theorem parseLoop_flags (m : UInt8) (hnow : 0 ∉ now) (hname : szName.length = maxParse)
    (hvalue : szValue.length = maxParse) (hfuel : now.length < fuel) :
    parseLoop m fuel now szName szValue map =
      .ok (((queryEntries fuel now).map (cleaned m)).foldl put map) := by
  induction fuel generalizing now szName szValue map with
  | zero => exact absurd hfuel (Nat.not_lt_zero _)
  | succ fuel ih =>
    rw [parseLoop, queryEntries]
    cases hsplit : splitParam now with
    | none => rfl
    | some p =>
      obtain ⟨name, value, rest⟩ := p
      obtain ⟨rfl, -, -⟩ := (splitParam_eq hsplit).resolve_right hnow
      have hname0 : 0 ∉ name := fun h => hnow (List.mem_append_left _ h)
      have hrest0 : 0 ∉ value ++ rest.elim [] (38 :: ·) := fun h =>
        hnow (List.mem_append_right _ (List.mem_cons_of_mem _ h))
      have hvalue0 : 0 ∉ value := fun h => hrest0 (List.mem_append_left _ h)
      obtain ⟨szName', hescName, hnlen, hncstr⟩ := escaped_copyPart m hname hname0
      obtain ⟨szValue', hescValue, hvlen, hvcstr⟩ := escaped_copyPart m hvalue hvalue0
      dsimp only
      rw [hescName, ok_bind, hescValue, ok_bind, hncstr, hvcstr, List.map_cons, List.foldl_cons]
      cases rest with
      | none => rfl
      | some now' =>
        refine ih (fun h => hrest0 ?_) hnlen hvlen ?_
        · exact List.mem_append_right _ (List.mem_cons_of_mem _ h)
        · simp only [List.length_append, List.length_cons, Option.elim_some] at hfuel
          omega

theorem entries_short (he : e ∈ queryEntries fuel now) :
    e.1.length < maxParse ∧ e.2.length < maxParse := by
  induction fuel generalizing now with
  | zero => exact absurd he List.not_mem_nil
  | succ fuel ih =>
    rw [queryEntries] at he
    cases hsplit : splitParam now with
    | none => simp [hsplit] at he
    | some p =>
      obtain ⟨name, value, rest⟩ := p
      have hpos : maxParse - 1 < maxParse := by decide
      simp only [hsplit, List.mem_cons] at he
      obtain rfl | he := he
      · exact ⟨(List.length_take_le ..).trans_lt hpos, (List.length_take_le ..).trans_lt hpos⟩
      · cases rest with
        | none => exact absurd he List.not_mem_nil
        | some now' => exact ih he

/-- The map of a text, for all flags. -/
def flagged (m : UInt8) (q : List UInt8) : CQueryString :=
  ((queryEntries (q.length + 1) q).map (cleaned m)).foldl put fun _ => none

theorem parse_flagged (m : UInt8) {q : List UInt8} (hq : 0 ∉ q) (a : Arrays) :
    parse (fun _ => none) q m a = .ok (flagged m q) :=
  parseLoop_flags m hq a.name_length a.value_length (Nat.lt_succ_self _)

/-- For every text, all flags and whatever the arrays hold, `Parse` comes to an end; a name has the
value that is last among the entries when they have been cut and filtered; and in the map there is
no blank and no line break of which the flags tell, and nothing of 128 bytes or more. -/
theorem parse_flags (m : UInt8) (q : Text) (a : Arrays) :
    ∃ map, parse (fun _ => none) q.val m a = .ok map ∧
      (∀ k, get map k =
        lastValue ((queryEntries (q.val.length + 1) q.val).map (cleaned m)) k) ∧
      ∀ k v, map k = some v → k.length < maxParse ∧ v.length < maxParse ∧
        ∀ b ∈ k ++ v, ¬ IsBlank m b ∧ ¬ IsBreak m b := by
  refine ⟨flagged m q.val, parse_flagged m q.property a, fun k => get_foldl_put _ k,
    fun k v hkv => ?_⟩
  obtain hmem | hnone := mem_of_foldl_put hkv
  · obtain ⟨e, he, hclean⟩ := List.mem_map.mp hmem
    obtain ⟨rfl, rfl⟩ := Prod.mk.inj hclean
    obtain ⟨hname, hvalue⟩ := entries_short he
    refine ⟨(length_cutFilter_le ..).trans_lt hname, (length_cutFilter_le ..).trans_lt hvalue,
      fun b hb => ?_⟩
    rcases List.mem_append.mp hb with hb | hb
    · exact (mem_cutFilter hb).2
    · exact (mem_cutFilter hb).2
  · exact absurd hnone (by simp)

/-- In `id= a`, CR, `b` the blank is deleted, and the line break ends the value. -/
example : (parse (fun _ => none) [105, 100, 61, 32, 97, 13, 98] esAll zeroArrays).map
    (get · [105, 100]) = .ok [97] := by decide +kernel

end Flags

end Tst
