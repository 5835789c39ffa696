import Mathlib.Data.List.Forall2
import Mathlib.Tactic.Common

namespace Interaction

inductive Prog (Op : Type) (Res : Op → Type) (α : Type) where
  | ret (a : α)
  | call (op : Op) (next : Res op → Prog Op Res α)

namespace Prog

variable {Op : Type} {Res : Op → Type} {α β γ σ : Type}

def bind : Prog Op Res α → (α → Prog Op Res β) → Prog Op Res β
  | ret a, f => f a
  | call op next, f => call op fun r => (next r).bind f

instance : Monad (Prog Op Res) where
  pure := ret
  bind := bind

theorem bind_ret (p : Prog Op Res α) : p.bind ret = p := by
  induction p with
  | ret a => rfl
  | call op next ih => exact congrArg (call op) (funext ih)

theorem bind_assoc (p : Prog Op Res α) (f : α → Prog Op Res β) (g : β → Prog Op Res γ) :
    (p.bind f).bind g = p.bind fun a => (f a).bind g := by
  induction p with
  | ret a => rfl
  | call op next ih => exact congrArg (call op) (funext ih)

instance : LawfulMonad (Prog Op Res) := .mk' _ bind_ret (fun _ _ => rfl) bind_assoc

theorem foldlM_flatMap {δ : Type} (f : β → γ → Prog Op Res β) (g : δ → List γ) (l : List δ) (b : β) :
    (l.flatMap g).foldlM f b = l.foldlM (fun b x => (g x).foldlM f b) b := by
  induction l generalizing b with
  | nil => rfl
  | cons x l ih => simp only [List.flatMap_cons, List.foldlM_append, List.foldlM_cons, ih]

def perform (op : Op) : Prog Op Res (Res op) := call op ret

def Only (P : Op → Prop) : Prog Op Res α → Prop
  | ret _ => True
  | call op next => P op ∧ ∀ r, Only P (next r)

theorem Only.bind {P : Op → Prop} {p : Prog Op Res α} {f : α → Prog Op Res β} (hp : p.Only P)
    (hf : ∀ a, (f a).Only P) : (p >>= f).Only P := by
  induction p with
  | ret a => exact hf a
  | call op next ih => exact ⟨hp.1, fun r => ih r (hp.2 r)⟩

theorem Only.forM {P : Op → Prop} {f : γ → Prog Op Res PUnit} (hf : ∀ x, (f x).Only P) (l : List γ) :
    (l.forM f).Only P := by
  induction l with
  | nil => trivial
  | cons x l ih => exact (hf x).bind fun _ => ih

def inl {Op' : Type} {Res' : Op' → Type} : Prog Op Res α → Prog (Op ⊕ Op') (Sum.elim Res Res') α
  | ret a => ret a
  | call op next => call (.inl op) fun r => (next r).inl

def run (h : (op : Op) → σ → Res op × σ) : Prog Op Res α → σ → α × σ
  | ret a, s => (a, s)
  | call op next, s => run h (next (h op s).1) (h op s).2

variable (h : (op : Op) → σ → Res op × σ)

@[simp] theorem run_bind (p : Prog Op Res α) (f : α → Prog Op Res β) (s : σ) :
    run h (p >>= f) s = run h (f (run h p s).1) (run h p s).2 := by
  change run h (p.bind f) s = _
  induction p generalizing s with
  | ret a => rfl
  | call op next ih => exact ih (h op s).1 (h op s).2

theorem run_forM_cons (f : γ → Prog Op Res PUnit) (x : γ) (l : List γ) (s : σ) :
    run h ((x :: l).forM f) s = run h (l.forM f) (run h (f x) s).2 :=
  run_bind h (f x) (fun _ => l.forM f) s

theorem run_invariant {P : σ → Prop} (hstep : ∀ op s, P s → P (h op s).2) (p : Prog Op Res α) {s : σ}
    (hs : P s) : P (run h p s).2 := by
  induction p generalizing s with
  | ret a => exact hs
  | call op next ih => exact ih _ (hstep op s hs)

theorem run_forM_range {f : Nat → Prog Op Res PUnit} {P : Nat → σ → Prop} {n : Nat} {s : σ}
    (h0 : P 0 s) (hstep : ∀ i < n, ∀ s, P i s → P (i + 1) (run h (f i) s).2) :
    P n (run h ((List.range n).forM f) s).2 := by
  induction n with
  | zero => exact h0
  | succ n ih =>
    have hbody : (List.range (n + 1)).forM f = (List.range n).forM f >>= fun _ => f n := by
      simp [List.range_succ, List.forM_eq_forM]
    rw [hbody, run_bind]
    exact hstep n (Nat.lt_succ_self n) _ (ih fun i hi => hstep i (Nat.lt_succ_of_lt hi))

theorem run_foldlM_cons (f : β → γ → Prog Op Res β) (x : γ) (l : List γ) (b : β) (s : σ) :
    run h ((x :: l).foldlM f b) s =
      run h (l.foldlM f (run h (f b x) s).1) (run h (f b x) s).2 := by
  rw [List.foldlM_cons, run_bind]

theorem run_foldlM_snd {f : β → γ → Prog Op Res β} {g : σ → γ → σ}
    (hstep : ∀ b x s, (run h (f b x) s).2 = g s x) (l : List γ) (b : β) (s : σ) :
    (run h (l.foldlM f b) s).2 = l.foldl g s := by
  induction l generalizing b s with
  | nil => rfl
  | cons x l ih => rw [run_foldlM_cons, ih, hstep]; rfl

section Emits

variable {τ ρ : Type} {out : σ → List τ} {R : τ → ρ → Prop}

variable (out R) in
def Emits (p : Prog Op Res α) (rs : List ρ) : Prop :=
  ∀ s, ∃ xs, out (run h p s).2 = out s ++ xs ∧ List.Forall₂ R xs rs

variable {h}

theorem Emits.ret (a : α) : Emits h out R (.ret a : Prog Op Res α) [] :=
  fun _ => ⟨[], (List.append_nil _).symm, .nil⟩

theorem Emits.bind {p : Prog Op Res α} {f : α → Prog Op Res β} {rs rs' : List ρ}
    (hp : Emits h out R p rs) (hf : ∀ a, Emits h out R (f a) rs') :
    Emits h out R (p >>= f) (rs ++ rs') := by
  intro s
  obtain ⟨xs, hxs, hmatch⟩ := hp s
  obtain ⟨ys, hys, hmatch'⟩ := hf (run h p s).1 (run h p s).2
  refine ⟨xs ++ ys, ?_, List.rel_append hmatch hmatch'⟩
  rw [run_bind, hys, hxs, List.append_assoc]

theorem Emits.forM {f : γ → Prog Op Res PUnit} {g : γ → List ρ} {l : List γ}
    (hf : ∀ x ∈ l, Emits h out R (f x) (g x)) : Emits h out R (l.forM f) (l.flatMap g) := by
  induction l with
  | nil => exact .ret _
  | cons x l ih =>
    rw [List.flatMap_cons]
    exact (hf x List.mem_cons_self).bind fun _ => ih fun y hy => hf y (List.mem_cons_of_mem x hy)

end Emits

end Prog

end Interaction
