import UbusVip.Transactions

namespace UbusVip

open Interaction (Prog)

variable {Op : Type} {Res : Op → Type} {α β γ : Type}

namespace Demand

variable {ρ : Type}

def Gives (d : Demand ρ) (r : ρ) : Prop :=
  match d with
  | .now r' => r = r'
  | .send _ r' => r = r'
  | .take f => ∃ rsp, r = f rsp
  | .edges _ r' => r = r'

def IsSend : Demand ρ → Prop
  | .send _ _ => True
  | _ => False

def IsTake : Demand ρ → Prop
  | .take _ => True
  | _ => False

theorem IsSend.eq_send {d : Demand ρ} (h : d.IsSend) : ∃ tr r, d = .send tr r := by
  cases d with
  | send tr r => exact ⟨tr, r, rfl⟩
  | now r | take f | edges n r => exact h.elim

theorem IsTake.eq_take {d : Demand ρ} (h : d.IsTake) : ∃ f, d = .take f := by
  cases d with
  | take f => exact ⟨f, rfl⟩
  | now r | send tr r | edges n r => exact h.elim

end Demand

def Sends (client : Client Op Res) (op : Op) : Prop := ∀ desk, (client desk op).IsSend

def Takes (client : Client Op Res) (op : Op) : Prop := ∀ desk, (client desk op).IsTake

def NeverTakes (client : Client Op Res) (op : Op) : Prop := ∀ desk, ¬(client desk op).IsTake

def Waits (client : Client Op Res) (op : Op) : Prop :=
  ∀ desk, ¬(client desk op).IsSend ∧ ¬(client desk op).IsTake

inductive Exchanges (client : Client Op Res) (alone : Op → Prop) : Prog Op Res α → Prop
  | ret (a : α) : Exchanges client alone (.ret a)
  | alone {op : Op} {next : Res op → Prog Op Res α} (hop : alone op)
      (hnext : ∀ desk r, (client desk op).Gives r → Exchanges client alone (next r)) :
      Exchanges client alone (.call op next)
  | exchange {op op' : Op} {next : Res op → Res op' → Prog Op Res α} (hop : Sends client op)
      (hop' : Takes client op')
      (hnext : ∀ desk r desk' r', (client desk op).Gives r → (client desk' op').Gives r' →
        Exchanges client alone (next r r')) :
      Exchanges client alone (.call op fun r => .call op' (next r))

abbrev Fed (client : Client Op Res) (p : Prog Op Res α) : Prop := Exchanges client (NeverTakes client) p

abbrev Paired (client : Client Op Res) (p : Prog Op Res α) : Prop := Exchanges client (Waits client) p

variable {client : Client Op Res} {alone : Op → Prop}

namespace Exchanges

theorem mono {alone' : Op → Prop} (hle : ∀ op, alone op → alone' op) {p : Prog Op Res α}
    (hp : Exchanges client alone p) : Exchanges client alone' p := by
  induction hp with
  | ret a => exact .ret a
  | alone hop _ ih => exact .alone (hle _ hop) ih
  | exchange hop hop' _ ih => exact .exchange hop hop' ih

theorem bind {p : Prog Op Res α} {f : α → Prog Op Res β} (hp : Exchanges client alone p)
    (hf : ∀ a, Exchanges client alone (f a)) : Exchanges client alone (p >>= f) := by
  induction hp with
  | ret a => exact hf a
  | alone hop _ ih => exact .alone hop ih
  | exchange hop hop' _ ih => exact .exchange hop hop' ih

theorem foldlM {f : β → γ → Prog Op Res β} (hf : ∀ b x, Exchanges client alone (f b x))
    (l : List γ) (b : β) : Exchanges client alone (l.foldlM f b) := by
  induction l generalizing b with
  | nil => exact .ret b
  | cons x l ih =>
    rw [List.foldlM_cons]
    exact (hf b x).bind ih

theorem forM {f : γ → Prog Op Res PUnit} {l : List γ}
    (hf : ∀ x ∈ l, Exchanges client alone (f x)) : Exchanges client alone (l.forM f) := by
  induction l with
  | nil => exact .ret _
  | cons x l ih =>
    exact (hf x List.mem_cons_self).bind fun _ => ih fun y hy => hf y (List.mem_cons_of_mem x hy)

theorem fed {p : Prog Op Res α} (hp : Paired client p) : Fed client p := hp.mono fun _ h desk => (h desk).2

end Exchanges

namespace Account

theorem deliver_queue_ne_nil (acc : Account Op Res) (rsp : Packet) : (acc.deliver rsp).queue ≠ [] := by
  rw [deliver]
  split
  · simp
  · rename_i h
    intro hnil
    simp only at hnil
    simp [hnil, responseDepth] at h

end Account

namespace Moment

variable {e : Platform} {m : Moment Op Res}

theorem gives_handle (client : Client Op Res) (e : Platform) (op : Op) (m : Moment Op Res) :
    (client (m.desk e) op).Gives (handle e client op m).1 := by
  rw [handle]
  cases client (m.desk e) op with
  | now r => rfl
  | send tr r => rfl
  | take f => exact ⟨_, rfl⟩
  | edges n r => rfl

theorem starved_of_neverTakes {op : Op} (h : NeverTakes client op) :
    (handle e client op m).2.starved = m.starved := by
  have hop := h (m.desk e)
  rw [handle]
  cases hd : client (m.desk e) op with
  | now r => rfl
  | send tr r => rfl
  | take f =>
    rw [hd] at hop
    exact absurd trivial hop
  | edges n r => rfl

theorem starved_exchange {op op' : Op} (h : Sends client op) (h' : Takes client op') :
    (handle e client op' (handle e client op m).2).2.starved = m.starved := by
  obtain ⟨tr, r, hsend⟩ := (h (m.desk e)).eq_send
  rw [handle_of_send hsend]
  obtain ⟨f, htake⟩ := (h' (((m.note op r).send e tr).desk e)).eq_take
  rw [handle_of_take htake]
  have hqueue : ((m.note op r).send e tr).account.queue.isEmpty = false :=
    List.isEmpty_eq_false_iff.mpr (Account.deliver_queue_ne_nil _ _)
  change (m.starved || ((m.note op r).send e tr).account.queue.isEmpty) = _
  rw [hqueue, Bool.or_false]

theorem starved_run {p : Prog Op Res α} (h : Fed client p) (m : Moment Op Res) :
    (p.run (handle e client) m).2.starved = m.starved := by
  induction h generalizing m with
  | ret a => rfl
  | alone hop _ ih => exact (ih _ _ (gives_handle client e _ m) _).trans (starved_of_neverTakes hop)
  | exchange hop hop' _ ih =>
    exact (ih _ _ _ _ (gives_handle client e _ m) (gives_handle client e _ _) _).trans
      (starved_exchange hop hop')

end Moment

namespace SequenceRun

def TakesNext (client : Client Op Res) (p : Prog Op Res α) : Prop :=
  ∃ op next, p = .call op next ∧ Takes client op ∧
    ∀ desk r, (client desk op).Gives r → Paired client (next r)

def Expects (client : Client Op Res) : Blocked → Prog Op Res α → Prop
  | .start, p => Paired client p
  | .grant _, p => TakesNext client p
  | .item, p => TakesNext client p
  | .response, _ => False
  | .edges _, p => Paired client p
  | .ended, _ => True

structure Tidy (client : Client Op Res) (c : SequenceRun Op Res α) : Prop where
  queue : c.account.queue = []
  expects : Expects client c.blocked c.rest

variable {desk : Desk} {tb : Testbench} {p : Prog Op Res α} {acc : Account Op Res}

theorem exec_tidy (h : Paired client p) (hq : acc.queue = []) :
    Tidy client (exec client desk tb p acc) ∧
      (exec client desk tb p acc).account.taken = acc.taken := by
  induction h generalizing acc with
  | ret a => exact ⟨⟨hq, trivial⟩, rfl⟩
  | @alone op next hop hnext ih =>
    obtain ⟨hsend, htake⟩ := hop desk
    rw [exec]
    cases hd : client desk op with
    | now r => exact ih desk r (hd ▸ rfl) hq
    | send tr r => exact absurd (hd ▸ trivial) hsend
    | take f => exact absurd (hd ▸ trivial) htake
    | edges n r =>
      cases n with
      | zero => exact ih desk r (hd ▸ rfl) hq
      | succ n => exact ⟨⟨hq, hnext desk r (hd ▸ rfl)⟩, rfl⟩
  | @exchange op op' next hop hop' hnext _ =>
    obtain ⟨tr, r, hd⟩ := (hop desk).eq_send
    have hrest : TakesNext client (.call op' (next r)) :=
      ⟨op', next r, rfl, hop', fun desk' r' hr' => hnext desk r desk' r' (hd ▸ rfl) hr'⟩
    rw [exec, hd]
    simp only
    split
    · exact ⟨⟨hq, hrest⟩, rfl⟩
    · exact ⟨⟨hq, hrest⟩, rfl⟩

theorem exec_takes {rsp : Packet} (h : TakesNext client p) (hq : acc.queue = [rsp]) :
    Tidy client (exec client desk tb p acc) ∧
      (exec client desk tb p acc).account.taken = acc.taken ++ [rsp] := by
  obtain ⟨op, next, rfl, hop, hnext⟩ := h
  obtain ⟨f, hd⟩ := (hop desk).eq_take
  have hpaired : Paired client (next (f rsp)) := hnext desk _ (hd ▸ ⟨rsp, rfl⟩)
  have hrun : exec client desk tb (.call op next) acc =
      exec client desk tb (next (f rsp)) (acc.note op (f rsp)).take := by
    rw [exec, hd]
    simp only [hq]
  have hqueue : (acc.note op (f rsp)).take.queue = [] := by simp [Account.take, Account.note, hq]
  have htaken : (acc.note op (f rsp)).take.taken = acc.taken ++ [rsp] := by
    simp [Account.take, Account.note, hq]
  rw [hrun, ← htaken]
  exact exec_tidy hpaired hqueue

variable {e : Platform} {k : Nat} {c : SequenceRun Op Res α}

theorem Tidy.resume (h : Tidy client c) (hr : Resumes e k c) :
    Tidy client (resume client e k c) ∧
      (SequenceRun.resume client e k c).account.taken =
        c.account.taken ++ if c.blocked = .item then [response e k c] else [] := by
  obtain ⟨tb, p, blocked, acc⟩ := c
  obtain ⟨hq, hexpects⟩ := h
  cases blocked with
  | start | edges n =>
    rw [if_neg nofun, List.append_nil]
    exact exec_tidy hexpects hq
  | grant tr => exact ⟨⟨hq, hexpects⟩, (List.append_nil _).symm⟩
  | item =>
    rw [if_pos rfl]
    refine exec_takes hexpects ?_
    simp only at hq
    simp [Account.deliver, hq, responseDepth]
  | response => exact hexpects.elim
  | ended => exact hr.elim

theorem Tidy.step (h : Tidy client c) (e : Platform) (k : Nat) : Tidy client (step client e k c) := by
  rw [SequenceRun.step]
  split
  · rename_i hr
    exact (h.resume hr).1
  · refine ⟨h.queue, ?_⟩
    obtain ⟨tb, p, blocked, acc⟩ := c
    have hexpects := h.expects
    cases blocked with
    | start | grant tr | item | response | edges n | ended => exact hexpects

end SequenceRun

end UbusVip
