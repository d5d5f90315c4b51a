import Mathlib.Data.Int.Basic
import Tst.Lib.CString

/-!
# Pointers that leave their string

A loop that goes backwards may put its pointer before the first byte. Such a pointer is an
integer; to follow it there is a fault, to hold it is none.

## Main definitions

- `loadPtr`, `storePtr` — the accesses through such a pointer

## Main results

- `loadPtr_natCast`, `storePtr_natCast` — inside the buffer they are those through an index
-/

namespace CString

/-- `*p`. -/
def loadPtr (s : List UInt8) : Int → Except Fault UInt8
  | .ofNat i => load s i
  | .negSucc _ => .error .bounds

/-- `*p = b`. -/
def storePtr (s : List UInt8) (p : Int) (b : UInt8) : Except Fault (List UInt8) :=
  match p with
  | .ofNat i => store s i b
  | .negSucc _ => .error .bounds

section Pointers

variable {s a r : List UInt8} {b : UInt8}

@[simp] theorem loadPtr_natCast (s : List UInt8) (i : Nat) : loadPtr s i = load s i := rfl

@[simp] theorem storePtr_natCast (s : List UInt8) (i : Nat) (b : UInt8) :
    storePtr s i b = store s i b := rfl

theorem loadPtr_at {p : Int} (hs : s = a ++ b :: r) (hp : p = a.length) : loadPtr s p = .ok b := by
  rw [hp, loadPtr_natCast, load_at hs rfl]

theorem storePtr_at {p : Int} (hs : s = a ++ b :: r) (hp : p = a.length) (c : UInt8) :
    storePtr s p c = .ok (a ++ c :: r) := by
  rw [hp, storePtr_natCast, store_at hs rfl]

/-- Behind the last byte there is nothing to be read. -/
theorem loadPtr_end {p : Int} (hp : p = s.length) : loadPtr s p = .error .bounds := by
  rw [hp, loadPtr_natCast, load, List.getElem?_eq_none (Nat.le_refl _)]

end Pointers

end CString
