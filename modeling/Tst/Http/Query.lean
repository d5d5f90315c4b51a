import Tst.Http.Block
import Mathlib.Data.List.TakeWhile

/-!
# Target and query

The search for the query, the two NULs that end it, and the decoding of the target and the
query in place.

## Main definitions

- `decodeStr` — the bytes from a string on, when it has been decoded
- `settled` — the bytes from the target on, when the query has been looked for

## Main results

- `splitUri_scan` — the loop goes where `scan` says
- `decodeTarget_settled` — what `decodeTarget` leaves, or that it runs out of the buffer
- `settled_eq` — it touches the target, and the bytes behind the version up to two NULs
-/

namespace Tst

open CString

-- ════════════════════════════════════════════════════════════════════════
-- The search
-- ════════════════════════════════════════════════════════════════════════

section Scan

variable {v x r : List UInt8} {b : Bool}

theorem scan_cut (h0 : 0 ∉ x) (h63 : 63 ∉ x) : scan b (x ++ 63 :: r) = some (some x.length) := by
  induction x generalizing b with
  | nil => rfl
  | cons c x ih =>
    have hc0 : c ≠ 0 := fun h => h0 (h ▸ List.mem_cons_self ..)
    have hc63 : c ≠ 63 := fun h => h63 (h ▸ List.mem_cons_self ..)
    rw [List.cons_append, scan, if_neg hc0, if_neg hc63,
      ih (fun h => h0 (List.mem_cons_of_mem _ h)) fun h => h63 (List.mem_cons_of_mem _ h)]
    rfl

theorem scan_nul (h0 : 0 ∉ x) (h63 : 63 ∉ x) (hx : x = [] → b = false) :
    scan b (x ++ 0 :: r) = (scan true r).map (Option.map (· + (x.length + 1))) := by
  induction x generalizing b with
  | nil => simp [scan, hx rfl]
  | cons c x ih =>
    have hc0 : c ≠ 0 := fun h => h0 (h ▸ List.mem_cons_self ..)
    have hc63 : c ≠ 63 := fun h => h63 (h ▸ List.mem_cons_self ..)
    rw [List.cons_append, scan, if_neg hc0, if_neg hc63,
      ih (fun h => h0 (List.mem_cons_of_mem _ h)) (fun h => h63 (List.mem_cons_of_mem _ h))
        fun _ => rfl]
    simp [Option.map_map, Function.comp_def, Nat.add_assoc]

theorem scan_over (h0 : 0 ∉ x) (h63 : 63 ∉ x) : scan b x = none := by
  induction x generalizing b with
  | nil => rfl
  | cons c x ih =>
    have hc0 : c ≠ 0 := fun h => h0 (h ▸ List.mem_cons_self ..)
    have hc63 : c ≠ 63 := fun h => h63 (h ▸ List.mem_cons_self ..)
    rw [scan, if_neg hc0, if_neg hc63,
      ih (fun h => h0 (List.mem_cons_of_mem _ h)) fun h => h63 (List.mem_cons_of_mem _ h)]
    rfl

/-- Two NULs in a row end the search, whatever follows. -/
theorem scan_pair (g r : List UInt8) : scan b (g ++ 0 :: 0 :: r) = scan b (g ++ [0, 0]) := by
  induction g generalizing b with
  | nil => cases b <;> rfl
  | cons c g ih => simp only [List.cons_append, scan, ih]

theorem scan_ends (g : List UInt8) : scan b (g ++ [0, 0]) ≠ none := by
  induction g generalizing b with
  | nil => cases b <;> exact fun h => nomatch h
  | cons c g ih =>
    rw [List.cons_append, scan]
    split
    · split
      · exact fun h => nomatch h
      · exact fun h => ih (Option.map_eq_none_iff.mp h)
    · split
      · exact fun h => nomatch h
      · exact fun h => ih (Option.map_eq_none_iff.mp h)

/-- What follows the place where the search ends does not matter. -/
theorem scan_append {o : Option Nat} (h : scan b v = some o) (r : List UInt8) :
    scan b (v ++ r) = some o := by
  induction v generalizing b o with
  | nil => exact absurd h (by simp [scan])
  | cons c v ih =>
    rw [scan] at h
    rw [List.cons_append, scan]
    split at h
    · next hc =>
      rw [if_pos hc]
      split at h
      · next hb => rwa [if_pos hb]
      · next hb =>
        obtain ⟨o', ho', rfl⟩ := Option.map_eq_some_iff.mp h
        rw [if_neg hb, ih ho']
        rfl
    · next hc =>
      rw [if_neg hc]
      split at h
      · next hc63 => rwa [if_pos hc63]
      · next hc63 =>
        obtain ⟨o', ho', rfl⟩ := Option.map_eq_some_iff.mp h
        rw [if_neg hc63, ih ho']
        rfl

/-- A query that is found begins behind a `?`. -/
theorem scan_query {k : Nat} (h : scan b v = some (some k)) : v[k]? = some 63 := by
  induction v generalizing b k with
  | nil => simp [scan] at h
  | cons c v ih =>
    rw [scan] at h
    split at h
    · split at h
      · simp at h
      · simp only [Option.map_eq_some_iff] at h
        obtain ⟨_, hq, k', rfl, rfl⟩ := h
        exact ih hq
    · split at h
      · next hc =>
        simp only [Option.some.injEq] at h
        subst h hc
        rfl
      · simp only [Option.map_eq_some_iff] at h
        obtain ⟨_, hq, k', rfl, rfl⟩ := h
        exact ih hq

/-- It begins before the two NULs. -/
theorem scan_query_lt {g : List UInt8} {k : Nat} (h : scan b (g ++ [0, 0]) = some (some k)) :
    k < g.length := by
  have hquery := scan_query h
  by_contra hge
  rw [List.getElem?_append_right (Nat.not_lt.mp hge)] at hquery
  have hmem := List.mem_of_getElem? hquery
  simp at hmem

end Scan

theorem take_past (x r : List UInt8) (k : Nat) :
    (x ++ 0 :: r).take (k + (x.length + 1)) = x ++ 0 :: r.take k := by
  rw [List.take_append, List.take_of_length_le (by omega),
    show k + (x.length + 1) - x.length = k + 1 by omega, List.take_succ_cons]

theorem drop_past (x r : List UInt8) (k : Nat) :
    (x ++ 0 :: r).drop (k + (x.length + 1) + 1) = r.drop (k + 1) := by
  rw [List.drop_append, List.drop_eq_nil_of_le (by omega),
    show k + (x.length + 1) + 1 - x.length = k + 1 + 1 by omega, List.drop_succ_cons,
    List.nil_append]

/-- The search goes on behind a NUL. -/
theorem splitUri_nul {s a x r : List UInt8} {i fuel : Nat} {q : Option Nat}
    (hs : s = a ++ (x ++ 0 :: r)) (hi : i = a.length) (hx : x ≠ [])
    (h0 : 0 ∉ x) (h63 : 63 ∉ x) :
    splitUri (fuel + 1) s i q = splitUri fuel s (i + x.length + 1) (some (i + x.length)) := by
  have hfind : find s (stopAt 63) i = .ok (i + x.length) :=
    find_at hs hi (stopAt_false h0 h63) rfl
  have hload₂ : load s (i + x.length) = .ok 0 :=
    load_at (a := a ++ x) (by rw [hs, List.append_assoc]) (by rw [List.length_append, hi])
  obtain ⟨b, x', rfl⟩ := List.exists_cons_of_ne_nil hx
  have hb : b ≠ 0 := fun h => h0 (h ▸ List.mem_cons_self ..)
  have hload : load s i = .ok b := load_at hs hi
  rw [splitUri, hload, ok_bind, if_neg hb, hfind, ok_bind, hload₂, ok_bind, if_neg (by decide)]

/-- What the loop that looks for the query leaves. -/
theorem splitUri_scan {s a v : List UInt8} {i fuel : Nat} {q : Option Nat} (hs : s = a ++ v)
    (hi : i = a.length) (hfuel : v.length < fuel) :
    match scan true v with
    | none => splitUri fuel s i q = .error .bounds
    | some none => ∃ q', splitUri fuel s i q = .ok (s, q') ∧
        ((q' = q ∧ v.head? = some 0) ∨
          ∃ j, q' = some j ∧ i + (cstr v).length ≤ j ∧ load s j = .ok 0)
    | some (some k) => splitUri fuel s i q =
        .ok (a ++ (v.take k ++ 0 :: v.drop (k + 1)), some (i + k + 1)) := by
  induction fuel generalizing a v i q with
  | zero => exact absurd hfuel (Nat.not_lt_zero _)
  | succ fuel ih =>
    cases v with
    | nil =>
      have hload : load s i = .error .bounds := by simp [load, hs, hi]
      simp [scan, splitUri, hload]
    | cons b v =>
      have hload : load s i = .ok b := load_at hs hi
      by_cases hb : b = 0
      · subst hb
        exact ⟨q, by rw [splitUri, hload, ok_bind, if_pos rfl]; rfl, .inl ⟨rfl, rfl⟩⟩
      · cases hcut : cutAt 63 (b :: v) with
        | some p =>
          obtain ⟨x, r⟩ := p
          obtain ⟨hv, h63, h0⟩ := (cutAt_eq_some (by decide)).mp hcut
          have hfind := find_cutAt hs hi (by decide) hcut
          have hs₂ : s = (a ++ x) ++ 63 :: r := by rw [hs, hv, List.append_assoc]
          have hi₂ : i + x.length = (a ++ x).length := by rw [List.length_append, hi]
          have hdrop : (x ++ 63 :: r).drop (x.length + 1) = r := by
            rw [← List.drop_drop, List.drop_left]
            rfl
          rw [hv, scan_cut h0 h63]
          simp only [List.take_left, hdrop]
          rw [splitUri, hload, ok_bind, if_neg hb, hfind, ok_bind, load_at hs₂ hi₂, ok_bind,
            if_pos rfl, store_at hs₂ hi₂, ok_bind, List.append_assoc]
          rfl
        | none =>
          have h63 := (cutAt_eq_none (by decide)).mp hcut
          by_cases hnul : (0 : UInt8) ∈ b :: v
          · -- the loop goes on behind the NUL
            obtain ⟨-, r, hv⟩ := find_cutAt_none hs hi (by decide) hcut hnul
            have hs₂ : s = (a ++ cstr (b :: v)) ++ 0 :: r := by
              conv_lhs => rw [hs, hv]
              rw [List.append_assoc]
            have hi₂ : i + (cstr (b :: v)).length = (a ++ cstr (b :: v)).length := by
              rw [List.length_append, hi]
            have hload₂ := load_at hs₂ hi₂
            have hs₃ : s = (a ++ cstr (b :: v) ++ [0]) ++ r := by rw [hs₂]; simp
            have hi₃ : i + (cstr (b :: v)).length + 1 = (a ++ cstr (b :: v) ++ [0]).length := by
              rw [List.length_append, ← hi₂]
              rfl
            have hlen := congrArg List.length hv
            simp only [List.length_append, List.length_cons] at hlen hfuel
            have hrest := ih (q := some (i + (cstr (b :: v)).length)) hs₃ hi₃ (by omega)
            have hne : cstr (b :: v) ≠ [] := by
              rw [cstr_cons, if_neg hb]
              exact List.cons_ne_nil _ _
            have hscan := scan_nul (b := true) (r := r) (not_mem_cstr (b :: v)) h63
              fun h => absurd h hne
            rw [← hv] at hscan
            rw [hscan, splitUri_nul (hv ▸ hs) hi hne (not_mem_cstr (b :: v)) h63]
            cases hr : scan true r with
            | none =>
              rw [hr] at hrest
              exact hrest
            | some o =>
              rw [hr] at hrest
              cases o with
              | none =>
                obtain ⟨q', hq, hq'⟩ := hrest
                refine ⟨q', hq, .inr ?_⟩
                rcases hq' with ⟨rfl, -⟩ | ⟨j, rfl, hj, hnul⟩
                · exact ⟨_, rfl, Nat.le_refl _, hload₂⟩
                · exact ⟨j, rfl, by omega, hnul⟩
              | some k =>
                have htake := take_past (cstr (b :: v)) r k
                have hdrop := drop_past (cstr (b :: v)) r k
                rw [← hv] at htake hdrop
                have hplus : i + (cstr (b :: v)).length + 1 + k + 1 =
                    i + (k + ((cstr (b :: v)).length + 1)) + 1 := by omega
                simp only [Option.map_some, htake, hdrop]
                rw [hrest, hplus]
                simp
          · rw [cstr_of_noNul hnul] at h63
            rw [scan_over hnul h63]
            have hfind : find s (stopAt 63) i = .error .bounds :=
              find_none hs hi (stopAt_false hnul h63)
            simp only [splitUri, hload, ok_bind, if_neg hb, hfind, error_bind]

-- ════════════════════════════════════════════════════════════════════════
-- The decoding
-- ════════════════════════════════════════════════════════════════════════

/-- The bytes from a string on, when it has been decoded. -/
def decodeStr (v : List UInt8) : List UInt8 :=
  urlDecode (cstr v) ++ v.drop (cstr v).length

/-- The bytes from the target on, when the query has been looked for and both have been
decoded. -/
def settled (v : List UInt8) : Option (List UInt8) :=
  match scan true v with
  | none => none
  | some none => some (decodeStr v)
  | some (some k) => some (decodeStr (v.take k ++ [0]) ++ decodeStr (v.drop (k + 1)))

section Decode

variable {s a v x r : List UInt8} {i : Nat}

theorem length_urlDecodeLoop (fuel : Nat) (s : List UInt8) (i j : Nat) :
    (urlDecodeLoop fuel s i j).1.length = s.length := by
  induction fuel generalizing s i j with
  | zero => rfl
  | succ fuel ih =>
    rw [urlDecodeLoop]
    split
    · rfl
    · split
      · split
        · split
          · rw [ih, List.length_set]
          · exact ih ..
        · rfl
      · rw [ih]
        split
        · exact List.length_set ..
        · rfl

@[simp] theorem length_urlDecode (s : List UInt8) : (urlDecode s).length = s.length := by
  rw [urlDecode, List.length_set, length_urlDecodeLoop]

/-- The byte at the write position is in the gap, or the first one that has not been read. -/
theorem set_write {out x : List UInt8} (hx : x ≠ []) (v : UInt8) :
    (out ++ x).set out.length v = (out ++ [v]) ++ x.drop 1 := by
  obtain ⟨b, x, rfl⟩ := List.exists_cons_of_ne_nil hx
  rw [List.set_append_right _ _ (Nat.le_refl _), Nat.sub_self, List.append_assoc]
  rfl

/-- Without `%` nothing is decoded. -/
theorem urlDecode_of_noPercent {s : List UInt8} (h : 37 ∉ s) : urlDecode s = s := by
  have hloop : ∀ fuel i, i ≤ s.length → s.length - i < fuel →
      urlDecodeLoop fuel s i i = (s, s.length) := by
    intro fuel
    induction fuel with
    | zero => exact fun i _ hlt => absurd hlt (Nat.not_lt_zero _)
    | succ fuel ih =>
      intro i hle hlt
      rw [urlDecodeLoop]
      by_cases hi : i < s.length
      · have hb : s[i] ≠ 37 := fun hb => h (hb ▸ List.getElem_mem hi)
        rw [List.getElem?_eq_getElem hi]
        simp only [if_neg hb, if_neg (Nat.lt_irrefl i)]
        exact ih (i + 1) hi (by omega)
      · rw [List.getElem?_eq_none (Nat.not_lt.mp hi)]
        simp only [Prod.mk.injEq, true_and]
        omega
  rw [urlDecode, hloop _ 0 (Nat.zero_le _) (by omega)]
  exact List.set_eq_of_length_le (Nat.le_refl _)

/-- Without `?` no query is found. -/
theorem scan_of_noQuery {b : Bool} {g : List UInt8} {k : Nat} (h : 63 ∉ g) :
    scan b (g ++ [0, 0]) ≠ some (some k) := by
  intro hscan
  have hk := scan_query_lt hscan
  have hquery := scan_query hscan
  rw [List.getElem?_append_left hk] at hquery
  exact h (List.mem_of_getElem? hquery)

theorem settle_of_noQuery {g : List UInt8} (h : 63 ∉ g) : settle g = g := by
  rw [settle]
  split
  · next k hk => exact absurd hk (scan_of_noQuery h)
  · rfl

theorem queryText_of_noQuery {g : List UInt8} (h : 63 ∉ g) : queryText (g ++ [0, 0]) = [] := by
  rw [queryText]
  split
  · next k hk => exact absurd hk (scan_of_noQuery h)
  · rfl

theorem length_settle (g : List UInt8) : (settle g).length = g.length := by
  rw [settle]
  split
  · next k hk =>
    have hlt := scan_query_lt hk
    have hle : (cstr (g.drop (k + 1))).length ≤ (g.drop (k + 1)).length :=
      (List.takeWhile_sublist _).length_le
    simp only [List.length_append, List.length_cons, List.length_take, List.length_drop,
      length_urlDecode] at hle ⊢
    omega
  · rfl

theorem decodeStr_append_zero (x r : List UInt8) (hx : 0 ∉ x) :
    decodeStr (x ++ 0 :: r) = urlDecode x ++ 0 :: r := by
  rw [decodeStr, cstr_append hx, List.drop_left]

theorem decodeStr_zero (r : List UInt8) : decodeStr (0 :: r) = 0 :: r :=
  decodeStr_append_zero [] r List.not_mem_nil

theorem length_decodeStr (v : List UInt8) : (decodeStr v).length = v.length := by
  have hle : (cstr v).length ≤ v.length := (List.takeWhile_sublist _).length_le
  rw [decodeStr, List.length_append, length_urlDecode, List.length_drop]
  omega

/-- `urlDecodeRewite` on a string of the buffer. -/
theorem urlDecodeRewite_at (hs : s = a ++ (x ++ 0 :: r)) (hi : i = a.length) (hx : 0 ∉ x) :
    urlDecodeRewite s i = .ok (a ++ (urlDecode x ++ 0 :: r)) := by
  have hfind : find s (· = 0) i = .ok (i + x.length) := find_nul hs hi hx
  have hwin : Bytes.window s i (i + x.length - i) = x := by
    rw [Nat.add_sub_cancel_left, hs, hi, Bytes.window, List.drop_left, List.take_left]
  have htake : s.take i = a := by rw [hs, hi, List.take_left]
  have hdrop : s.drop (i + x.length) = 0 :: r := by
    rw [hs, hi, ← List.drop_drop, List.drop_left, List.drop_left]
  rw [urlDecodeRewite, hfind, ok_bind, hwin, htake, hdrop, List.append_assoc]
  rfl

/-- `decodeAt` on a string of the buffer. -/
theorem decodeAt_at (hs : s = a ++ v) (hi : i = a.length) (hv : 0 ∈ v) :
    decodeAt s (some i) = .ok (a ++ decodeStr v) := by
  obtain ⟨x, r, rfl, hx⟩ := List.eq_append_cons_of_mem hv
  rw [decodeStr_append_zero x r hx]
  cases x with
  | nil =>
    have hload : load s i = .ok 0 := load_at hs hi
    rw [decodeAt, hload, ok_bind, if_pos rfl, hs]
    rfl
  | cons b x =>
    have hb : b ≠ 0 := fun h => hx (h ▸ List.mem_cons_self ..)
    have hload : load s i = .ok b := load_at hs hi
    rw [decodeAt, hload, ok_bind, if_neg hb]
    exact urlDecodeRewite_at hs hi hx

/-- A string that is decoded ends where it ended. -/
theorem decodeStr_split (x r : List UInt8) :
    decodeStr (x ++ 0 :: r) = decodeStr (x ++ [0]) ++ r := by
  have hle : (cstr x).length ≤ x.length := (List.takeWhile_sublist _).length_le
  rw [decodeStr, decodeStr, cstr_append_zero, cstr_append_zero, List.append_assoc,
    List.drop_append_of_le_length hle, List.drop_append_of_le_length hle]
  simp

/-- Behind the string nothing has changed. -/
theorem load_decodeStr {j : Nat} (hj : a.length + (cstr v).length ≤ j) :
    load (a ++ decodeStr v) j = load (a ++ v) j := by
  have hsplit : v = cstr v ++ v.drop (cstr v).length := by
    conv_lhs => rw [← List.take_append_drop (cstr v).length v]
    congr 1
    exact List.prefix_iff_eq_take.mp (List.takeWhile_prefix _) |>.symm
  have hbehind : ∀ x : List UInt8, x.length = (cstr v).length →
      (a ++ (x ++ v.drop (cstr v).length))[j]? = (v.drop (cstr v).length)[j - a.length - x.length]? := by
    intro x hx
    rw [List.getElem?_append_right (by omega), List.getElem?_append_right (by omega)]
  have hnew : (a ++ decodeStr v)[j]? = (a ++ v)[j]? := by
    conv_rhs => rw [hsplit]
    rw [decodeStr, hbehind _ (length_urlDecode _), hbehind _ rfl, length_urlDecode]
  rw [load, load, hnew]

end Decode

theorem settled_some {v : List UInt8} (h : scan true v ≠ none) : ∃ v', settled v = some v' := by
  rw [settled]
  split
  · next hnone => exact absurd hnone h
  · exact ⟨_, rfl⟩
  · exact ⟨_, rfl⟩

theorem mem_decodeStr {v : List UInt8} (hv : 0 ∈ v) : 0 ∈ decodeStr v := by
  obtain ⟨x, r, rfl, hx⟩ := List.eq_append_cons_of_mem hv
  rw [decodeStr_append_zero x r hx]
  simp

theorem cstr_decodeStr {v : List UInt8} (hv : 0 ∈ v) :
    cstr (decodeStr v) = cstr (urlDecode (cstr v)) := by
  obtain ⟨x, r, rfl, hx⟩ := List.eq_append_cons_of_mem hv
  rw [decodeStr_append_zero x r hx, cstr_append_zero, cstr_append hx]

/-- The bytes from the target on are still a string. -/
theorem settled_nul {v v' : List UInt8} (hv : 0 ∈ v) (h : settled v = some v') : 0 ∈ v' := by
  rw [settled] at h
  split at h
  · exact absurd h (by simp)
  · obtain rfl := Option.some.inj h
    exact mem_decodeStr hv
  · obtain rfl := Option.some.inj h
    exact List.mem_append_left _ (mem_decodeStr (by simp))

/-- What `decodeTarget` leaves. -/
theorem decodeTarget_settled {s a v : List UInt8} {i : Nat} (hs : s = a ++ v) (hi : i = a.length)
    (hlast : v.getLast? = some 0) :
    match settled v with
    | none => decodeTarget s i = .error .bounds
    | some v' => ∃ q, decodeTarget s i = .ok (a ++ v', q) ∧
        (v.head? ≠ some 0 → ∃ j, q = some j ∧ str (a ++ v') j = .ok (queryText v)) := by
  have hfuel : v.length < s.length + 1 := by
    rw [hs, List.length_append]
    omega
  have hsplit := splitUri_scan (q := none) hs hi hfuel
  have hv : 0 ∈ v := List.mem_of_getLast? hlast
  rw [settled]
  cases hscan : scan true v with
  | none =>
    rw [hscan] at hsplit
    simp only [decodeTarget, hsplit, error_bind]
  | some o =>
    cases o with
    | none =>
      rw [hscan] at hsplit
      obtain ⟨q, hq, hnul⟩ := hsplit
      have hload : ∀ j, i + (cstr v).length ≤ j → load s j = .ok 0 →
          load (a ++ decodeStr v) j = .ok 0 := fun j hj hnul => by
        rw [load_decodeStr (hi ▸ hj), ← hs, hnul]
      have hquery : decodeAt (a ++ decodeStr v) q = .ok (a ++ decodeStr v) := by
        rcases hnul with ⟨rfl, -⟩ | ⟨j, rfl, hj, hnul⟩
        · rfl
        · rw [decodeAt, hload j hj hnul, ok_bind, if_pos rfl]
          rfl
      refine ⟨q, ?_, fun hhead => ?_⟩
      · simp only [decodeTarget, hq, ok_bind, decodeAt_at hs hi hv, hquery]
        rfl
      · rcases hnul with ⟨-, hzero⟩ | ⟨j, rfl, hj, hnul⟩
        · exact absurd hzero hhead
        · refine ⟨j, rfl, ?_⟩
          rw [queryText, hscan, str_of_load (hload j hj hnul)]
    | some k =>
      rw [hscan] at hsplit
      have hk := scan_query hscan
      have hlt : k < v.length := (List.getElem?_eq_some_iff.mp hk).1
      have hdrop : 0 ∈ v.drop (k + 1) := by
        -- the last byte is behind the `?`
        have hne : v.drop (k + 1) ≠ [] := by
          intro hnil
          have hlen : k + 1 = v.length := by
            have := List.drop_eq_nil_iff.mp hnil
            omega
          rw [List.getLast?_eq_getElem?, ← hlen, Nat.add_sub_cancel, hk] at hlast
          exact absurd (Option.some.inj hlast) (by decide)
        refine List.mem_of_getLast? ?_
        rw [List.getLast?_drop, if_neg fun hle => hne (List.drop_eq_nil_of_le hle), hlast]
      have hfirst : decodeAt (a ++ (v.take k ++ 0 :: v.drop (k + 1))) (some i) =
          .ok ((a ++ decodeStr (v.take k ++ [0])) ++ v.drop (k + 1)) := by
        rw [decodeAt_at rfl hi (by simp), decodeStr_split, List.append_assoc]
      have hlen : i + k + 1 = (a ++ decodeStr (v.take k ++ [0])).length := by
        rw [List.length_append, length_decodeStr, List.length_append, List.length_take, hi]
        simp only [List.length_cons, List.length_nil]
        omega
      refine ⟨some (i + k + 1), ?_, fun _ => ⟨_, rfl, ?_⟩⟩
      · rw [← List.append_assoc a]
        simp only [decodeTarget, hsplit, ok_bind, hfirst, decodeAt_at rfl hlen hdrop]
        rfl
      · rw [← List.append_assoc a, str_at rfl hlen (mem_decodeStr hdrop), queryText, hscan,
          cstr_decodeStr hdrop]

-- ════════════════════════════════════════════════════════════════════════
-- What is edited
-- ════════════════════════════════════════════════════════════════════════

/-- The target, when it has been decoded. -/
def decodedTarget (target : List UInt8) : List UInt8 :=
  match cutAt 63 target with
  | none => urlDecode target
  | some (x, y) => urlDecode x ++ 0 :: urlDecode y

/-- The bytes behind the version, when the query has been looked for among them. -/
def editBehind (w : List UInt8) : Option (List UInt8) :=
  match scan true w with
  | none => none
  | some none => some w
  | some (some k) => some (w.take k ++ 0 :: decodeStr (w.drop (k + 1)))

section Behind

variable {target version w : List UInt8}

theorem length_decodedTarget (target : List UInt8) :
    (decodedTarget target).length = target.length := by
  rw [decodedTarget]
  split
  · exact length_urlDecode _
  · next x y hcut =>
    obtain ⟨rfl, -⟩ := (cutAt_eq_some (by decide)).mp hcut
    simp

theorem cstr_decodedTarget (h0 : 0 ∉ target) (r : List UInt8) :
    cstr (decodedTarget target ++ 0 :: r) = uriText target := by
  rw [decodedTarget, uriText]
  cases hcut : cutAt 63 target with
  | none =>
    have h63 := (cutAt_eq_none (by decide)).mp hcut
    rw [cstr_of_noNul h0] at h63
    have hpos : ∀ b ∈ target, decide (b ≠ 63) = true :=
      fun b hb => decide_eq_true fun hb63 => h63 (hb63 ▸ hb)
    have htake : target.takeWhile (· ≠ 63) = target := List.takeWhile_eq_self_iff.mpr hpos
    rw [htake, cstr_append_zero]
  | some p =>
    obtain ⟨x, y⟩ := p
    obtain ⟨rfl, h63, -⟩ := (cutAt_eq_some (by decide)).mp hcut
    have hpos : ∀ b ∈ x, decide (b ≠ 63) = true :=
      fun b hb => decide_eq_true fun hb63 => h63 (hb63 ▸ hb)
    have htake : (x ++ 63 :: y).takeWhile (· ≠ 63) = x := by
      rw [List.takeWhile_append_of_pos hpos]
      simp
    rw [htake, List.append_assoc, List.cons_append, cstr_append_zero]

/-- A target without `?` is not the end of the search. -/
theorem scan_behind (h0 : 0 ∉ target) (hnil : target ≠ []) (h63 : 63 ∉ target)
    (hver0 : 0 ∉ version) (hver63 : 63 ∉ version) (hver : version ≠ []) :
    scan true (target ++ 0 :: (version ++ 0 :: w)) = (scan true w).map
      (Option.map (· + (version.length + 1) + (target.length + 1))) := by
  rw [scan_nul h0 h63 fun h => absurd h hnil, scan_nul hver0 hver63 fun h => absurd h hver,
    Option.map_map]
  simp [Function.comp_def, Option.map_map]

/-- The target is decoded, and what is behind the version is edited only when the target is
not empty and has no `?`. -/
theorem settled_behind (h0 : 0 ∉ target) (hver0 : 0 ∉ version) (hver63 : 63 ∉ version)
    (hver : version ≠ []) :
    settled (target ++ 0 :: (version ++ 0 :: w)) =
      (if target = [] ∨ 63 ∈ target then some w else editBehind w).map
        fun w' => decodedTarget target ++ 0 :: (version ++ 0 :: w') := by
  by_cases hnil : target = []
  · subst hnil
    rw [if_pos (.inl rfl), List.nil_append, settled]
    exact congrArg some (decodeStr_zero _)
  by_cases h63 : 63 ∈ target
  · -- the query is in the target
    obtain ⟨x, y, rfl, hx⟩ := List.eq_append_cons_of_mem h63
    have hx0 : 0 ∉ x := fun h => h0 (List.mem_append_left _ h)
    have hy0 : 0 ∉ y := fun h => h0 (List.mem_append_right _ (List.mem_cons_of_mem _ h))
    have hcut : cutAt 63 (x ++ 63 :: y) = some (x, y) :=
      (cutAt_eq_some (by decide)).mpr ⟨rfl, hx, hx0⟩
    have hdrop : ∀ r : List UInt8, (x ++ 63 :: r).drop (x.length + 1) = r := by
      intro r
      rw [← List.drop_drop, List.drop_left]
      rfl
    rw [if_pos (.inr h63), decodedTarget, hcut, List.append_assoc, List.cons_append, settled,
      scan_cut hx0 hx]
    simp only [List.take_left, hdrop]
    rw [decodeStr_append_zero _ _ hx0, decodeStr_append_zero _ _ hy0]
    simp
  · have hcut : cutAt 63 target = none := by
      rw [cutAt_eq_none (by decide), cstr_of_noNul h0]
      exact h63
    rw [if_neg (not_or.mpr ⟨hnil, h63⟩), decodedTarget, hcut, settled,
      scan_behind h0 hnil h63 hver0 hver63 hver, editBehind]
    cases scan true w with
    | none => rfl
    | some o =>
      cases o with
      | none => exact congrArg some (decodeStr_append_zero _ _ h0)
      | some k =>
        simp only [Option.map_some]
        rw [take_past, take_past, drop_past, drop_past, List.append_assoc target,
          List.cons_append, decodeStr_append_zero _ _ h0]
        simp

/-- Two NULs in a row end the search. -/
theorem editBehind_pair (g tail : List UInt8) :
    editBehind (g ++ 0 :: 0 :: tail) = some (settle g ++ 0 :: 0 :: tail) := by
  rw [editBehind, settle, scan_pair]
  cases hg : scan true (g ++ [0, 0]) with
  | none => exact absurd hg (scan_ends g)
  | some o =>
    cases o with
    | none => rfl
    | some k =>
      have hk := scan_query_lt hg
      have hdrop : (g ++ 0 :: 0 :: tail).drop (k + 1) = g.drop (k + 1) ++ 0 :: 0 :: tail :=
        List.drop_append_of_le_length hk
      have hle : (cstr (g.drop (k + 1))).length ≤ (g.drop (k + 1)).length :=
        (List.takeWhile_sublist _).length_le
      simp only [hdrop, Option.some.injEq]
      rw [decodeStr, cstr_append_zero, List.drop_append_of_le_length hle, List.drop_drop,
        List.take_append_of_le_length (Nat.le_of_lt hk)]
      simp

/-- A query string ends at the NUL behind the bytes that are searched. -/
theorem queryText_congr {g r : List UInt8}
    (h : scan true (g ++ 0 :: r) = scan true (g ++ [0, 0])) :
    queryText (g ++ 0 :: r) = queryText (g ++ [0, 0]) := by
  rw [queryText, queryText, h]
  cases hg : scan true (g ++ [0, 0]) with
  | none => rfl
  | some o =>
    cases o with
    | none => rfl
    | some k =>
      have hk := scan_query_lt hg
      simp only
      rw [List.drop_append_of_le_length hk, List.drop_append_of_le_length hk, cstr_append_zero,
        cstr_append_zero]

/-- The query string of a request line with a target and a version. -/
theorem queryText_behind (h0 : 0 ∉ target) (hnil : target ≠ []) (hver0 : 0 ∉ version)
    (hver63 : 63 ∉ version) (hver : version ≠ []) :
    queryText (target ++ 0 :: (version ++ 0 :: w)) =
      if 63 ∈ target then queryText (target ++ [0, 0]) else queryText w := by
  by_cases h63 : 63 ∈ target
  · obtain ⟨x, y, rfl, hx⟩ := List.eq_append_cons_of_mem h63
    have hx0 : 0 ∉ x := fun h => h0 (List.mem_append_left _ h)
    have hdrop : ∀ r : List UInt8, (x ++ 63 :: r).drop (x.length + 1) = r := by
      intro r
      rw [← List.drop_drop, List.drop_left]
      rfl
    have htext : ∀ r : List UInt8, queryText (x ++ 63 :: (y ++ 0 :: r)) =
        cstr (urlDecode (cstr y)) := by
      intro r
      rw [queryText, scan_cut hx0 hx]
      simp only [hdrop, cstr_append_zero]
    rw [if_pos h63, List.append_assoc, List.cons_append, htext, List.append_assoc,
      List.cons_append, htext]
  · rw [if_neg h63, queryText, scan_behind h0 hnil h63 hver0 hver63 hver, queryText]
    cases scan true w with
    | none => rfl
    | some o =>
      cases o with
      | none => rfl
      | some k =>
        simp only [Option.map_some]
        rw [drop_past, drop_past]

end Behind

end Tst
