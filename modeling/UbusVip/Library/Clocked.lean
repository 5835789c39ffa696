import Mathlib.Tactic.Common

namespace Clocked

variable {S A : Type}

def run (step : Nat → S → S) (init : S) : Nat → S
  | 0 => init
  | k + 1 => step k (run step init k)

theorem run_invariant {step : Nat → S → S} {init : S} {P : S → Prop} (h0 : P init)
    (hstep : ∀ k s, P s → P (step k s)) (k : Nat) : P (run step init k) := by
  induction k with
  | zero => exact h0
  | succ k ih => exact hstep k _ ih

theorem run_simulates {stepC : Nat → S → S} {stepA : Nat → A → A} {c : S} {a : A}
    {R : A → S → Prop} (h0 : R a c)
    (hstep : ∀ k t s, R t s → R (stepA k t) (stepC k s)) (k : Nat) :
    R (run stepA a k) (run stepC c k) := by
  induction k with
  | zero => exact h0
  | succ k ih => exact hstep k _ _ ih

theorem run_monotone {step : Nat → S → S} {init : S} {le : S → S → Prop}
    (hrefl : ∀ s, le s s) (htrans : ∀ s t u, le s t → le t u → le s u)
    (hstep : ∀ k s, le s (step k s)) {i j : Nat} (hij : i ≤ j) :
    le (run step init i) (run step init j) := by
  induction hij with
  | refl => exact hrefl _
  | step _ ih => exact htrans _ _ _ ih (hstep _ _)

def runFrom (step : Nat → S → S) (k : Nat) (s : S) : Nat → S
  | 0 => s
  | n + 1 => step (k + n) (runFrom step k s n)

theorem run_eq_runFrom (step : Nat → S → S) (init : S) (n : Nat) :
    run step init n = runFrom step 0 init n := by
  induction n with
  | zero => rfl
  | succ n ih => rw [run, runFrom, ih, Nat.zero_add]

theorem runFrom_add (step : Nat → S → S) (k : Nat) (s : S) (m n : Nat) :
    runFrom step k s (m + n) = runFrom step (k + m) (runFrom step k s m) n := by
  induction n with
  | zero => rfl
  | succ n ih => rw [← Nat.add_assoc, runFrom, runFrom, ih, Nat.add_assoc]

theorem runFrom_succ_left (step : Nat → S → S) (k : Nat) (s : S) (n : Nat) :
    runFrom step k s (n + 1) = runFrom step (k + 1) (step k s) n := by
  rw [Nat.add_comm, runFrom_add]
  rfl

end Clocked
