import Mathlib.Tactic.Common

namespace ArrayFill

variable {α : Type}

def fill (a : List α) (f : Nat → α) : Nat → List α
  | 0 => a
  | i + 1 => (fill a f i).set i (f i)

theorem fill_succ (a : List α) (f : Nat → α) (i : Nat) :
    fill a f (i + 1) = (fill a f i).set i (f i) := rfl

@[simp] theorem length_fill (a : List α) (f : Nat → α) (i : Nat) :
    (fill a f i).length = a.length := by
  induction i with
  | zero => rfl
  | succ i ih => simp [fill, ih]

theorem getD_fill_of_lt (a : List α) (f : Nat → α) (d : α) {i j : Nat} (h : j < i)
    (hj : j < a.length) : (fill a f i).getD j d = f j := by
  induction i with
  | zero => omega
  | succ i ih =>
    rcases eq_or_ne i j with rfl | hij
    · simp [fill, hj]
    · simpa [fill, List.getElem?_set, hij] using ih (by omega)

end ArrayFill
