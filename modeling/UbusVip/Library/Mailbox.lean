import UbusVip.Library.Interaction

namespace Mailbox

open Interaction (Prog)

inductive Kind where
  | put
  | take
  | other
deriving DecidableEq, Repr

-- arrivals records, for each arrival, how many were waiting just before it
structure Box where
  waiting : Nat
  arrivals : List Nat
deriving DecidableEq, Repr

def Box.empty : Box := ⟨0, []⟩

def Box.step (depth : Nat) (b : Box) : Kind → Box
  | .put => ⟨if b.waiting < depth then b.waiting + 1 else b.waiting, b.arrivals ++ [b.waiting]⟩
  | .take => ⟨b.waiting - 1, b.arrivals⟩
  | .other => b

variable {Op : Type} {Res : Op → Type} {α β γ E : Type}

def handler (depth : Nat) (kind : Op → Kind) (h : (op : Op) → E → Res op × E) (op : Op)
    (s : E × Box) : Res op × (E × Box) :=
  ((h op s.1).1, (h op s.1).2, s.2.step depth (kind op))

def runBox (depth : Nat) (kind : Op → Kind) (h : (op : Op) → E → Res op × E) (p : Prog Op Res α)
    (e : E) (b : Box) : Box := (p.run (handler depth kind h) (e, b)).2.2

def NoneDropped (depth : Nat) (kind : Op → Kind) (h : (op : Op) → E → Res op × E)
    (p : Prog Op Res α) (e : E) : Prop :=
  ∀ w ∈ (runBox depth kind h p e .empty).arrivals, w < depth

variable {depth : Nat} {kind : Op → Kind} {h : (op : Op) → E → Res op × E}

theorem runBox_call (op : Op) (next : Res op → Prog Op Res α) (e : E) (b : Box) :
    runBox depth kind h (.call op next) e b =
      runBox depth kind h (next (h op e).1) (h op e).2 (b.step depth (kind op)) := rfl

theorem runBox_bind (p : Prog Op Res α) (f : α → Prog Op Res β) (e : E) (b : Box) :
    ∃ a e', runBox depth kind h (p >>= f) e b =
      runBox depth kind h (f a) e' (runBox depth kind h p e b) := by
  refine ⟨(p.run (handler depth kind h) (e, b)).1, (p.run (handler depth kind h) (e, b)).2.1, ?_⟩
  rw [runBox, Prog.run_bind]
  rfl

section Balanced

structure Idle (b b' : Box) : Prop where
  waiting : b'.waiting = 0
  arrivals : ∃ n, b'.arrivals = b.arrivals ++ List.replicate n 0

theorem Idle.trans {b b' b'' : Box} (h : Idle b b') (g : Idle b' b'') : Idle b b'' := by
  obtain ⟨m, hm⟩ := h.arrivals
  obtain ⟨n, hn⟩ := g.arrivals
  exact ⟨g.waiting, m + n, by rw [hn, hm, List.append_assoc, List.replicate_append_replicate]⟩

variable (depth kind h) in
def Balanced (p : Prog Op Res α) : Prop :=
  ∀ e b, b.waiting = 0 → Idle b (runBox depth kind h p e b)

theorem Balanced.ret (a : α) : Balanced depth kind h (.ret a) :=
  fun _ _ hb => ⟨hb, 0, (List.append_nil _).symm⟩

theorem Balanced.bind {p : Prog Op Res α} {f : α → Prog Op Res β}
    (hp : Balanced depth kind h p) (hf : ∀ a, Balanced depth kind h (f a)) :
    Balanced depth kind h (p >>= f) := by
  intro e b hb
  obtain ⟨a, e', hrun⟩ := runBox_bind p f e b
  have hfirst := hp e b hb
  rw [hrun]
  exact hfirst.trans (hf a e' _ hfirst.waiting)

theorem Balanced.other {op : Op} {next : Res op → Prog Op Res α} (hk : kind op = .other)
    (hn : ∀ r, Balanced depth kind h (next r)) : Balanced depth kind h (.call op next) := by
  intro e b hb
  rw [runBox_call, hk]
  exact hn _ _ b hb

theorem Balanced.exchange (hd : 0 < depth) {op op' : Op} {next : Res op → Res op' → Prog Op Res α}
    (hk : kind op = .put) (hk' : kind op' = .take)
    (hn : ∀ r r', Balanced depth kind h (next r r')) :
    Balanced depth kind h (.call op fun r => .call op' (next r)) := by
  intro e b hb
  have hbox : (b.step depth .put).step depth .take = ⟨0, b.arrivals ++ [0]⟩ := by
    simp [Box.step, hb, hd]
  rw [runBox_call, runBox_call, hk, hk', hbox]
  exact Idle.trans ⟨rfl, 1, rfl⟩ (hn _ _ _ _ rfl)

theorem Balanced.foldlM {f : β → γ → Prog Op Res β} (hf : ∀ b x, Balanced depth kind h (f b x))
    (l : List γ) (b : β) : Balanced depth kind h (l.foldlM f b) := by
  induction l generalizing b with
  | nil => exact .ret b
  | cons x l ih =>
    rw [List.foldlM_cons]
    exact (hf b x).bind ih

theorem Balanced.forM {f : γ → Prog Op Res PUnit} (hf : ∀ x, Balanced depth kind h (f x))
    (l : List γ) : Balanced depth kind h (l.forM f) := by
  induction l with
  | nil => exact .ret _
  | cons x l ih => exact (hf x).bind fun _ => ih

theorem Balanced.noneDropped (hd : 0 < depth) {p : Prog Op Res α}
    (hp : Balanced depth kind h p) (e : E) : NoneDropped depth kind h p e := by
  obtain ⟨n, hn⟩ := (hp e .empty rfl).arrivals
  intro w hw
  rw [hn, show Box.empty.arrivals = [] from rfl, List.nil_append] at hw
  rw [List.eq_of_mem_replicate hw]
  exact hd

end Balanced

section Puts

variable (kind) in
def Puts (f : γ → Prog Op Res PUnit) : Prop :=
  ∀ x, ∃ op, kind op = .put ∧ f x = .call op fun _ => .ret ⟨⟩

theorem runBox_puts {f : γ → Prog Op Res PUnit} (hf : Puts kind f) (l : List γ) (e : E) {b : Box}
    (hb : b.waiting ≤ depth) :
    runBox depth kind h (l.forM f) e b =
      ⟨min (b.waiting + l.length) depth,
        b.arrivals ++ (List.range l.length).map fun i => min (b.waiting + i) depth⟩ := by
  induction l generalizing e b with
  | nil =>
    obtain ⟨waiting, arrivals⟩ := b
    exact congrArg₂ Box.mk (Nat.min_eq_left hb).symm (List.append_nil _).symm
  | cons x l ih =>
    obtain ⟨op, hk, hop⟩ := hf x
    have hstep : b.step depth .put = ⟨min (b.waiting + 1) depth, b.arrivals ++ [b.waiting]⟩ := by
      rw [Box.step]
      congr 1
      split <;> omega
    have hcons : runBox depth kind h ((x :: l).forM f) e b =
        runBox depth kind h (l.forM f) (h op e).2 (b.step depth .put) := by
      rw [← hk]
      change runBox depth kind h (f x >>= fun _ => l.forM f) e b = _
      rw [hop]
      rfl
    have hwaiting : min (min (b.waiting + 1) depth + l.length) depth =
        min (b.waiting + (l.length + 1)) depth := by omega
    have harrived (i : Nat) : min (min (b.waiting + 1) depth + i) depth =
        min (b.waiting + (i + 1)) depth := by omega
    rw [hcons, hstep, ih _ (Nat.min_le_right _ _), List.length_cons, List.range_succ_eq_map]
    simp [hwaiting, harrived, Nat.min_eq_left hb]

theorem noneDropped_puts_iff {f : γ → Prog Op Res PUnit} (hf : Puts kind f) (l : List γ) (e : E) :
    NoneDropped depth kind h (l.forM f) e ↔ l.length ≤ depth := by
  rw [NoneDropped, runBox_puts hf l e (Nat.zero_le depth)]
  simp only [Box.empty, List.nil_append, Nat.zero_add, List.mem_map, List.mem_range]
  constructor
  · intro hall
    by_contra hlen
    exact absurd (hall depth ⟨depth, Nat.lt_of_not_le hlen, Nat.min_self depth⟩) (Nat.lt_irrefl _)
  · rintro hlen _ ⟨i, hi, rfl⟩
    omega

theorem noneDropped_other {op : Op} {next : Res op → Prog Op Res α} (hk : kind op = .other) (e : E) :
    NoneDropped depth kind h (.call op next) e ↔
      NoneDropped depth kind h (next (h op e).1) (h op e).2 := by
  rw [NoneDropped, NoneDropped, runBox_call, hk]
  rfl

theorem noneDropped_bind {p : Prog Op Res α} {f : α → Prog Op Res β}
    (hf : ∀ a e b, runBox depth kind h (f a) e b = b) (e : E) :
    NoneDropped depth kind h (p >>= f) e ↔ NoneDropped depth kind h p e := by
  have hrun : runBox depth kind h (p >>= f) e .empty = runBox depth kind h p e .empty := by
    obtain ⟨a, e', hbind⟩ := runBox_bind p f e .empty
    rw [hbind, hf]
  rw [NoneDropped, NoneDropped, hrun]

end Puts

end Mailbox
