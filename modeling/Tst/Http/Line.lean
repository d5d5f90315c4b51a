import Tst.Http.Block

/-!
# The request line

What the parser makes of the request line of a block, by how far the line goes.

## Main results

- `requestLine_incomplete`, `requestLine_complete` — the search for the two spaces
- `requestVersion_bare`, `requestVersion_unsupported`, `requestVersion_full` — what follows
  the second one
-/

namespace Tst

open CString

/-- CR LF CR LF. -/
def headerEnd : List UInt8 := [13, 10, 13, 10]

section Line

variable {h r x z method target version junk rest : List UInt8} {c : UInt8} {body : Nat}

/-- A byte other than CR and LF is before the end of the block. -/
theorem headerEnd_tail (h : headerEnd <:+ x ++ c :: r) (hc : c ∉ headerEnd) : headerEnd <:+ r := by
  rcases List.suffix_or_suffix_of_suffix h (List.suffix_append x (c :: r)) with hin | hout
  · rcases List.suffix_cons_iff.mp hin with heq | hr
    · exact absurd (heq ▸ List.mem_cons_self ..) hc
    · exact hr
  · exact absurd (hout.subset (List.mem_cons_self ..)) hc

/-- A loop that should find a space finds it. -/
theorem find_space {s a l : List UInt8} {i : Nat} (hs : s = a ++ (l ++ 0 :: z)) (hi : i = a.length)
    (hcut : cutAt 32 l = some (x, r)) :
    find s (stopAt 32) i = .ok (i + x.length) ∧ load s (i + x.length) = .ok 32 ∧
      store s (i + x.length) 0 = .ok (a ++ (x ++ 0 :: (r ++ 0 :: z))) := by
  obtain ⟨hl, hcx, h0x⟩ := (cutAt_eq_some (by decide)).mp hcut
  subst hs hi hl
  have hsplit : a ++ (x ++ 32 :: r ++ 0 :: z) = (a ++ x) ++ 32 :: (r ++ 0 :: z) := by simp
  refine ⟨?_, load_at hsplit (by simp), ?_⟩
  · rw [List.append_assoc x]
    exact find_at rfl rfl (stopAt_false h0x hcx) rfl
  · rw [store_at hsplit (by simp), List.append_assoc]

/-- A loop that finds no space ends at the NUL. -/
theorem find_no_space {s a l : List UInt8} {i : Nat} (hs : s = a ++ (l ++ 0 :: z))
    (hi : i = a.length) (hcut : cutAt 32 l = none) :
    ∃ e, find s (stopAt 32) i = .ok e ∧ load s e = .ok 0 := by
  have hcut' : cutAt 32 (l ++ 0 :: z) = none := by
    rw [cutAt_append_zero (by decide), hcut, Option.map_none]
  obtain ⟨hfind, r, hr⟩ := find_cutAt_none hs hi (by decide) hcut' (by simp)
  refine ⟨_, hfind, ?_⟩
  rw [hr, ← List.append_assoc] at hs
  exact load_at hs (by simp [hi])

/-- A request line without two spaces leaves the URI unset and the parser at the NUL. -/
theorem requestLine_incomplete (z : List UInt8) (body : Nat) (hline : readLine h = .incomplete) :
    ∃ p, requestLine (h ++ 0 :: z) body = .ok p ∧ p.unsupported = false ∧
      p.req.requestUri = none ∧ load p.s p.url = .ok 0 := by
  rw [readLine] at hline
  split at hline
  · next hnone =>
    obtain ⟨e, hfind, hload⟩ := find_no_space (a := []) (i := 0) rfl rfl hnone
    refine ⟨⟨h ++ 0 :: z, e, { bodyString := body }, false⟩, ?_, rfl, rfl, hload⟩
    rw [List.nil_append] at hfind hload
    simp [requestLine, hfind, hload, pure, Except.pure]
  · next method r hsome =>
    split at hline
    · next hnone =>
      obtain ⟨hfind, hload, hstore⟩ := find_space (a := []) (z := z) (i := 0) rfl rfl hsome
      simp only [List.nil_append, Nat.zero_add] at hfind hload hstore
      have hs : method ++ 0 :: (r ++ 0 :: z) = (method ++ [0]) ++ (r ++ 0 :: z) := by simp
      obtain ⟨e, hfind', hload'⟩ := find_no_space (i := method.length + 1) hs (by simp) hnone
      refine ⟨⟨_, e, { bodyString := body, requestMethod := some 0 }, false⟩, ?_, rfl, rfl, hload'⟩
      simp [requestLine, requestTarget, hfind, hload, hstore, hfind', hload', pure, Except.pure]
    · next target r' hsome' =>
      split at hline
      · simp at hline
      · split at hline <;> simp at hline

/-- The loop over the request line, up to the second space. -/
theorem requestLine_complete {r' : List UInt8} (hmethod : cutAt 32 h = some (method, r'))
    (htarget : cutAt 32 r' = some (target, r)) :
    requestLine (h ++ 0 :: z) body =
      requestVersion (method ++ 0 :: (target ++ 0 :: (r ++ 0 :: z)))
        (method.length + 1 + target.length + 1)
        { bodyString := body, requestMethod := some 0, requestUri := some (method.length + 1) } := by
  obtain ⟨hfind, hload, hstore⟩ := find_space (a := []) (z := z) (i := 0) rfl rfl hmethod
  simp only [List.nil_append, Nat.zero_add] at hfind hload hstore
  have hs : method ++ 0 :: (r' ++ 0 :: z) = (method ++ [0]) ++ (r' ++ 0 :: z) := by simp
  obtain ⟨hfind', hload', hstore'⟩ := find_space (i := method.length + 1) hs (by simp) htarget
  rw [List.append_assoc, List.singleton_append] at hstore'
  simp [requestLine, requestTarget, hfind, hload, hstore, hfind', hload', hstore']

theorem equalAt_at {s a l text : List UInt8} {i : Nat} (hs : s = a ++ (l ++ 0 :: z))
    (hi : i = a.length) (hlen : text.length ≤ l.length + 1) :
    equalAt s i text = .ok (decide ((l ++ 0 :: z).take text.length = text)) := by
  subst hs hi
  have hroom : a.length + text.length ≤ (a ++ (l ++ 0 :: z)).length := by
    simp only [List.length_append, List.length_cons]
    omega
  rw [equalAt, if_pos hroom, Bytes.window, List.drop_left]

theorem four_le_of_headerEnd (hr : headerEnd <:+ r) : 4 ≤ r.length := hr.length_le

/-- The comparison of the version stays within the block. -/
theorem versionSupported_at {s a : List UInt8} {i : Nat} (hs : s = a ++ (r ++ 0 :: z))
    (hi : i = a.length) (hr : headerEnd <:+ r) :
    versionSupported s i = .ok (decide (beginsVersion r)) := by
  have hlen := four_le_of_headerEnd hr
  have hhttp : (r ++ 0 :: z).take 5 = textHttp ↔ r.take 5 = textHttp := by
    by_cases hfive : 5 ≤ r.length
    · rw [List.take_append_of_le_length hfive]
    · obtain rfl : headerEnd = r := hr.eq_of_length (by change 4 = _; omega)
      have hne : ¬ some (13 : UInt8) = some 72 := by decide
      exact ⟨fun h => absurd (congrArg List.head? h) hne,
        fun h => absurd (congrArg List.head? h) hne⟩
  have hfirst : equalAt s i textHttp = .ok (decide (r.take 5 = textHttp)) := by
    rw [equalAt_at hs hi (by change 5 ≤ _; omega)]
    exact congrArg Except.ok (decide_eq_decide.mpr hhttp)
  rw [versionSupported, hfirst]
  by_cases h5 : r.take 5 = textHttp
  · have hsplit : r = [72, 84, 84, 80] ++ 47 :: r.drop 5 := by
      have h := (List.take_append_drop 5 r).symm
      rwa [h5] at h
    have hr5 : headerEnd <:+ r.drop 5 := headerEnd_tail (hsplit ▸ hr) (by decide)
    have hlen5 := four_le_of_headerEnd hr5
    have hs5 : s = (a ++ textHttp) ++ (r.drop 5 ++ 0 :: z) := by
      rw [hs, List.append_assoc, ← List.append_assoc textHttp, ← h5, List.take_append_drop]
    have hi5 : i + 5 = (a ++ textHttp).length := by rw [hi, List.length_append]; rfl
    have hthree : (r.drop 5 ++ 0 :: z).take 3 = (r.drop 5).take 3 :=
      List.take_append_of_le_length (by omega)
    have h10 : equalAt s (i + 5) text10 = .ok (decide ((r.drop 5).take 3 = text10)) := by
      rw [equalAt_at hs5 hi5 (by change 3 ≤ _; omega)]
      exact congrArg (fun l => Except.ok (decide (l = text10))) hthree
    have h11 : equalAt s (i + 5) text11 = .ok (decide ((r.drop 5).take 3 = text11)) := by
      rw [equalAt_at hs5 hi5 (by change 3 ≤ _; omega)]
      exact congrArg (fun l => Except.ok (decide (l = text11))) hthree
    by_cases hv : (r.drop 5).take 3 = text10
    · simp [h5, h10, hv, beginsVersion, pure, Except.pure]
    · simp [h5, h10, h11, hv, beginsVersion]
  · simp [h5, beginsVersion, pure, Except.pure]

/-- With a NUL behind the second space the parser stays there. -/
theorem requestVersion_bare {s a : List UInt8} {i : Nat} (req : RequestInfo)
    (hs : s = a ++ (r ++ 0 :: z)) (hi : i = a.length) (hnul : r.head? = some 0) :
    requestVersion s i req = .ok ⟨s, i, req, false⟩ ∧ load s i = .ok 0 := by
  obtain ⟨r', rfl⟩ := List.head?_eq_some_iff.mp hnul
  have hload : load s i = .ok 0 := load_at hs hi
  simp [requestVersion, hload, pure, Except.pure]

theorem load_head {s a : List UInt8} {i : Nat} (hs : s = a ++ (r ++ 0 :: z)) (hi : i = a.length)
    (hr : headerEnd <:+ r) (hnul : r.head? ≠ some 0) : ∃ b, load s i = .ok b ∧ b ≠ 0 := by
  cases r with
  | nil => exact absurd hr (by decide)
  | cons b r' => exact ⟨b, load_at hs hi, fun h => hnul (by rw [h]; rfl)⟩

theorem requestVersion_unsupported {s a : List UInt8} {i : Nat} (req : RequestInfo)
    (hs : s = a ++ (r ++ 0 :: z)) (hi : i = a.length) (hr : headerEnd <:+ r)
    (hnul : r.head? ≠ some 0) (hv : ¬ beginsVersion r) :
    requestVersion s i req = .ok ⟨s, i, req, true⟩ := by
  obtain ⟨b, hload, hb⟩ := load_head hs hi hr hnul
  simp [requestVersion, hload, hb, versionSupported_at hs hi hr, hv, pure, Except.pure]

/-- The rest of a line that ends. -/
theorem takeWhile_line {l : List UInt8} (h : 10 ∈ l) :
    l = l.takeWhile (· ≠ 10) ++ 10 :: (l.dropWhile (· ≠ 10)).drop 1 ∧
      10 ∉ l.takeWhile (· ≠ 10) := by
  obtain ⟨x, y, rfl, hx⟩ := List.eq_append_cons_of_mem h
  have hpos : ∀ b ∈ x, decide (b ≠ 10) = true :=
    fun b hb => decide_eq_true fun h10 => hx (h10 ▸ hb)
  rw [List.takeWhile_append_of_pos hpos, List.dropWhile_append_of_pos hpos]
  simp [hx]

/-- With a supported version the byte after it is lost and the rest of the line skipped. -/
theorem requestVersion_full {s a : List UInt8} {i : Nat} (req : RequestInfo)
    (hs : s = a ++ (r ++ 0 :: z)) (hi : i = a.length) (hr : headerEnd <:+ r)
    (hv : beginsVersion r) :
    let junk := (r.drop 9).takeWhile (· ≠ 10)
    let rest := ((r.drop 9).dropWhile (· ≠ 10)).drop 1
    requestVersion s i req = .ok
        ⟨a ++ (textHttp ++ ((r.drop 5).take 3 ++ 0 :: (junk ++ 10 :: (rest ++ 0 :: z)))),
          i + 10 + junk.length, { req with httpVersion := some (i + 5) }, false⟩ ∧
      10 ∉ junk ∧ rest <:+ r := by
  intro junk rest
  have hnul : r.head? ≠ some 0 := by
    have hhead : r.head? = some 72 := by
      have h := congrArg List.head? hv.1
      rwa [List.head?_take] at h
    rw [hhead]
    decide
  obtain ⟨b, hload, hb⟩ := load_head hs hi hr hnul
  -- the version ends with a digit, so that the end of the block is behind it
  have hsplit : r = textHttp ++ ((r.drop 5).take 3 ++ r.drop 8) := by
    conv_lhs => rw [← List.take_append_drop 5 r, hv.1, ← List.take_append_drop 3 (r.drop 5)]
    rw [List.drop_drop]
  have hv3 : ((r.drop 5).take 3).length = 3 := by rcases hv.2 with hv | hv <;> rw [hv] <;> rfl
  have hr8 : headerEnd <:+ r.drop 8 := by
    have hdigit : ∀ c ∉ headerEnd, r = (textHttp ++ [49, 46]) ++ c :: r.drop 8 →
        headerEnd <:+ r.drop 8 := fun c hc hsplit => headerEnd_tail (hsplit ▸ hr) hc
    rcases hv.2 with hv | hv
    · exact hdigit 48 (by decide) (by rw [hv] at hsplit; exact hsplit)
    · exact hdigit 49 (by decide) (by rw [hv] at hsplit; exact hsplit)
  obtain ⟨c, h8⟩ : ∃ c, r.drop 8 = c :: r.drop 9 := by
    have hlen := four_le_of_headerEnd hr8
    rw [List.length_drop] at hlen
    have hlt : 8 < r.length := by omega
    exact ⟨r[8], List.drop_eq_getElem_cons hlt⟩
  have hten : 10 ∈ r.drop 9 := by
    rw [h8] at hr8
    rcases List.suffix_cons_iff.mp hr8 with heq | hin
    · rw [← (List.cons.inj heq).2]
      decide
    · exact hin.subset (by decide)
  obtain ⟨hline, hjunk⟩ := takeWhile_line hten
  have hs8 : s = (a ++ (textHttp ++ (r.drop 5).take 3)) ++ c :: (r.drop 9 ++ 0 :: z) := by
    conv_lhs => rw [hs, hsplit, h8]
    simp only [List.append_assoc, List.cons_append]
  have hi8 : i + 8 = (a ++ (textHttp ++ (r.drop 5).take 3)).length := by
    rw [List.length_append, List.length_append, hv3, hi]
    rfl
  have hstore := store_at hs8 hi8 0
  have hs9 : (a ++ (textHttp ++ (r.drop 5).take 3)) ++ 0 :: (r.drop 9 ++ 0 :: z) =
      (a ++ (textHttp ++ (r.drop 5).take 3)) ++ ((0 :: junk) ++ 10 :: (rest ++ 0 :: z)) := by
    conv_lhs => rw [hline]
    simp only [List.append_assoc, List.cons_append]
    rfl
  have hfind : find ((a ++ (textHttp ++ (r.drop 5).take 3)) ++ 0 :: (r.drop 9 ++ 0 :: z))
      (· = 10) (i + 8) = .ok (i + 8 + (0 :: junk).length) := by
    refine find_at hs9 hi8 (fun y hy => decide_eq_false ?_) rfl
    rintro rfl
    rcases List.mem_cons.mp hy with h0 | hy
    · exact absurd h0 (by decide)
    · exact hjunk hy
  rw [hs9] at hstore hfind
  refine ⟨?_, hjunk, ?_⟩
  · have hurl : i + 8 + (0 :: junk).length + 1 = i + 10 + junk.length := by
      rw [List.length_cons]
      omega
    simp only [requestVersion, hload, hb, versionSupported_at hs hi hr, hv, hstore, hfind, ok_bind,
      decide_true, Bool.not_true, Bool.false_eq_true, if_false, hurl, pure, Except.pure]
    simp only [List.append_assoc, List.cons_append]
  · have hrest : rest <:+ r.drop 9 := by
      conv_rhs => rw [hline]
      exact List.suffix_append_of_suffix (List.suffix_cons ..)
    exact hrest.trans (List.drop_suffix ..)

end Line

end Tst
