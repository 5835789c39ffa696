import UbusVip.Library.Clocked
import UbusVip.Library.Interaction

-- a clocked machine carries out a program: At m p s says that s is the machine's state after the
-- time step of m, in which the program goes on with p; Pending holds while an operation lasts
namespace Realtime

open Clocked (runFrom)
open Interaction (Prog)

variable {Op : Type} {Res : Op → Type} {α M S : Type}

structure Realizes (step : Nat → S → S) (time : M → Nat) (h : (op : Op) → M → Res op × M)
    (At : M → Prog Op Res α → S → Prop) (Pending : S → Prop) : Prop where
  later : ∀ op m, time m ≤ time (h op m).2
  call : ∀ {m op next s}, At m (.call op next) s →
    At (h op m).2 (next (h op m).1) (runFrom step (time m + 1) s (time (h op m).2 - time m))
  pending : ∀ {m op next s}, At m (.call op next) s →
    ∀ n < time (h op m).2 - time m, Pending (runFrom step (time m + 1) s n)

variable {step : Nat → S → S} {time : M → Nat} {h : (op : Op) → M → Res op × M}
  {At : M → Prog Op Res α → S → Prop} {Pending : S → Prop}

theorem Realizes.time_le (hr : Realizes step time h At Pending) (p : Prog Op Res α) (m : M) :
    time m ≤ time (p.run h m).2 := by
  induction p generalizing m with
  | ret a => exact Nat.le_refl _
  | call op next ih => exact Nat.le_trans (hr.later op m) (ih _ _)

theorem runFrom_split {a b c : Nat} (hab : a ≤ b) (hbc : b ≤ c) (s : S) :
    runFrom step (a + 1) s (c - a) =
      runFrom step (b + 1) (runFrom step (a + 1) s (b - a)) (c - b) := by
  rw [show c - a = (b - a) + (c - b) by omega, Clocked.runFrom_add,
    show a + 1 + (b - a) = b + 1 by omega]

theorem Realizes.run (hr : Realizes step time h At Pending) {p : Prog Op Res α} {m : M} {s : S}
    (hat : At m p s) :
    At (p.run h m).2 (.ret (p.run h m).1)
      (runFrom step (time m + 1) s (time (p.run h m).2 - time m)) := by
  induction p generalizing m s with
  | ret a =>
    rw [Prog.run, Nat.sub_self]
    exact hat
  | call op next ih =>
    rw [Prog.run, runFrom_split (hr.later op m) (hr.time_le _ _)]
    exact ih _ (hr.call hat)

theorem Realizes.run_pending (hr : Realizes step time h At Pending) {p : Prog Op Res α} {m : M}
    {s : S} (hat : At m p s) {n : Nat} (hn : n < time (p.run h m).2 - time m) :
    Pending (runFrom step (time m + 1) s n) := by
  induction p generalizing m s n with
  | ret a =>
    rw [Prog.run, Nat.sub_self] at hn
    cases hn
  | call op next ih =>
    rw [Prog.run] at hn
    have hlater := hr.later op m
    rcases Nat.lt_or_ge n (time (h op m).2 - time m) with hlt | hge
    · exact hr.pending hat n hlt
    · obtain ⟨d, rfl⟩ := Nat.exists_eq_add_of_le hge
      rw [Clocked.runFrom_add, show time m + 1 + (time (h op m).2 - time m) =
        time (h op m).2 + 1 by omega]
      exact ih _ (hr.call hat) (by omega)

end Realtime
