import UbusVip.Library.Realtime
import UbusVip.Refinement.Run
import UbusVip.Transactions

namespace UbusVip

open Clocked (runFrom)
open Interaction (Prog)

variable {Op : Type} {Res : Op → Type} {α : Type} {client : Client Op Res} {e : Platform}

namespace SequenceRun

variable {tl : Timeline} {k : Nat} {c : SequenceRun Op Res α}

theorem edge_follows (h : Follows UbusCoverage.init tl c.tb) :
    Follows UbusCoverage.init (tl.advance e.draw) (edge e k c) := UbusVip.edge_follows h

theorem edge_idle_iff (h : Follows UbusCoverage.init tl c.tb) :
    (edge e k c).masterDriver = .getNextItem ↔ tl.busy e.draw ≤ 1 := by
  have hedge : Follows UbusCoverage.init (tl.advance e.draw) (edge e k c) := edge_follows h
  rw [hedge.getNextItem_iff e.draw, Timeline.busy_advance_sub]
  omega

theorem desk_eq (h : Follows UbusCoverage.init tl c.tb) {acc : Account Op Res}
    (hacc : acc.items = c.account.items) (waited : Nat) (starved : Bool) :
    desk e k c = Moment.desk e ⟨k, tl, waited, starved, acc⟩ := by
  have hedge : Follows UbusCoverage.init (tl.advance e.draw) (edge e k c) := edge_follows h
  have hcovered : (desk e k c).covered = Moment.covered e ⟨k, tl, waited, starved, acc⟩ := by
    simp only [desk, Moment.covered, Timeline.visible]
    split
    · exact hedge.published.coverage
    · exact h.published.coverage
  exact congrArg₂ Desk.mk hcovered (congrArg List.length hacc.symm)

theorem response_eq (h : Follows UbusCoverage.init tl c.tb) (acc : Account Op Res) (waited : Nat)
    (starved : Bool) :
    response e k c = Moment.response e ⟨k, tl, waited, starved, acc⟩ := by
  have hedge : Follows UbusCoverage.init (tl.advance e.draw) (edge e k c) := edge_follows h
  rw [response, hedge.returned]
  rfl

theorem step_resumes (h : Resumes e k c) : step client e k c = resume client e k c := if_pos h

theorem step_blocked (h : ¬Resumes e k c) :
    step client e k c = { c with tb := edge e k c, blocked := c.blocked.tick } := if_neg h

def served (e : Platform) (k : Nat) (c : SequenceRun Op Res α) : Account Op Res :=
  if c.blocked = .item then c.account.deliver (response e k c) else c.account

theorem served_log (e : Platform) (k : Nat) (c : SequenceRun Op Res α) :
    (served e k c).log = c.account.log := by
  rw [served]
  split <;> rfl

theorem step_cases (client : Client Op Res) (e : Platform) (k : Nat) (c : SequenceRun Op Res α) :
    (¬Resumes e k c ∧ step client e k c = { c with tb := edge e k c, blocked := c.blocked.tick }) ∨
    (∃ tr, c.blocked = .grant tr ∧ (edge e k c).masterDriver = .getNextItem ∧
      step client e k c = ⟨(edge e k c).accept (some tr), c.rest, .item, c.account.send tr⟩) ∨
    (Resumes e k c ∧ (∀ tr, c.blocked ≠ .grant tr) ∧
      step client e k c = exec client (desk e k c) (edge e k c) c.rest (served e k c)) := by
  rcases Decidable.em (Resumes e k c) with hr | hr
  · rw [step_resumes hr]
    cases hb : c.blocked with
    | grant tr =>
      refine .inr (.inl ⟨tr, rfl, ?_, by simp only [resume, hb]⟩)
      simpa only [Resumes, hb] using hr
    | item =>
      refine .inr (.inr ⟨hr, ?_, by simp only [resume, served, hb, if_true]⟩)
      intro tr h
      cases h
    | start | response | edges n | ended =>
      refine .inr (.inr ⟨hr, ?_, ?_⟩)
      · intro tr h
        cases h
      · simp only [resume, served, hb]
        rfl
  · exact .inl ⟨hr, step_blocked hr⟩

def Pending (c : SequenceRun Op Res α) : Prop := c.blocked ≠ .ended

def Stuck (c : SequenceRun Op Res α) : Prop := c.blocked = .response ∧ c.account.queue = []

theorem Stuck.pending (h : Stuck c) : Pending c := by
  rw [Pending, h.1]
  nofun

theorem stuck_step (h : Stuck c) : Stuck (step client e k c) := by
  have hr : ¬Resumes e k c := by
    simp only [Resumes, h.1]
    exact not_not.mpr h.2
  rw [step_blocked hr]
  exact ⟨by rw [h.1]; rfl, h.2⟩

theorem stuck_runFrom (h : Stuck c) (n : Nat) : Stuck (runFrom (step client e) k c n) := by
  induction n with
  | zero => exact h
  | succ n ih => exact stuck_step ih

structure RunsAt (client : Client Op Res) (e : Platform) (k : Nat) (tl : Timeline)
    (c : SequenceRun Op Res α) (b : Blocked) (n : Nat) : Prop where
  reached : ∃ tb, Follows UbusCoverage.init (tl.after e.draw n) tb ∧
    runFrom (step client e) k c n = { c with tb := tb, blocked := b } ∧
      Resumes e (k + n) { c with tb := tb, blocked := b }
  pending : ∀ j ≤ n, Pending (runFrom (step client e) k c j)

theorem RunsAt.now {b : Blocked} (h : Follows UbusCoverage.init tl c.tb) (hp : Pending c)
    (hb : c.blocked = b) (hr : Resumes e k c) : RunsAt client e k tl c b 0 := by
  subst hb
  refine ⟨⟨c.tb, h, rfl, hr⟩, ?_⟩
  intro j hj
  obtain rfl := Nat.le_zero.mp hj
  exact hp

theorem RunsAt.later {b : Blocked} {n : Nat} (hp : Pending c) (hr : ¬Resumes e k c)
    (h : RunsAt client e (k + 1) (tl.advance e.draw)
      { c with tb := edge e k c, blocked := c.blocked.tick } b n) :
    RunsAt client e k tl c b (n + 1) := by
  constructor
  · obtain ⟨tb, htb, hrun, hres⟩ := h.reached
    refine ⟨tb, htb, ?_, ?_⟩
    · rw [Clocked.runFrom_succ_left, step_blocked hr, hrun]
    · rwa [show k + (n + 1) = k + 1 + n by omega]
  · intro j hj
    cases j with
    | zero => exact hp
    | succ j =>
      rw [Clocked.runFrom_succ_left, step_blocked hr]
      exact h.pending j (by omega)

theorem pending_of_blocked {b : Blocked} (hb : c.blocked = b) (h : b ≠ .ended) : Pending c := by
  rwa [Pending, hb]

theorem runsAt_edges {n : Nat} (h : Follows UbusCoverage.init tl c.tb) (hb : c.blocked = .edges n) :
    RunsAt client e k tl c (.edges 0) n := by
  have hp : Pending c := pending_of_blocked hb nofun
  induction n generalizing tl k c with
  | zero => exact .now h hp hb (by simp only [Resumes, hb])
  | succ n ih =>
    have htick : c.blocked.tick = .edges n := by rw [hb]; rfl
    refine .later hp ?_ (ih (edge_follows h) htick (pending_of_blocked htick nofun))
    simp only [Resumes, hb]
    exact Nat.succ_ne_zero n

theorem resumes_item_iff (h : Follows UbusCoverage.init tl c.tb) (hb : c.blocked = .item) :
    Resumes e k c ↔ tl.finished.length < (tl.advance e.draw).finished.length := by
  have hedge : Follows UbusCoverage.init (tl.advance e.draw) (edge e k c) := edge_follows h
  simp only [Resumes, hb, h.returned, hedge.returned, List.length_map]
  rfl

theorem runsAt_item {n : Nat} (h : Follows UbusCoverage.init tl c.tb) (hb : c.blocked = .item)
    (hn : tl.busy e.draw = n + 1) : RunsAt client e k tl c .item n := by
  have hp : Pending c := pending_of_blocked hb nofun
  induction n generalizing tl k c with
  | zero => exact .now h hp hb ((resumes_item_iff h hb).mpr (Timeline.finished_lt hn))
  | succ n ih =>
    have htick : c.blocked.tick = .item := by rw [hb]; rfl
    refine .later hp ?_ (ih (edge_follows h) htick ?_ (pending_of_blocked htick nofun))
    · rw [resumes_item_iff h hb, Timeline.finished_advance (by omega)]
      exact lt_irrefl _
    · rw [Timeline.busy_advance_sub, hn]; rfl

theorem resumes_grant_iff {tr : Item} (h : Follows UbusCoverage.init tl c.tb)
    (hb : c.blocked = .grant tr) : Resumes e k c ↔ tl.busy e.draw ≤ 1 := by
  simp only [Resumes, hb]
  exact edge_idle_iff h

theorem runsAt_grant {tr : Item} {n : Nat} (h : Follows UbusCoverage.init tl c.tb)
    (hb : c.blocked = .grant tr) (hn : tl.busy e.draw = n + 1) :
    RunsAt client e k tl c (.grant tr) n := by
  have hp : Pending c := pending_of_blocked hb nofun
  induction n generalizing tl k c with
  | zero => exact .now h hp hb ((resumes_grant_iff h hb).mpr (by omega))
  | succ n ih =>
    have htick : c.blocked.tick = .grant tr := by rw [hb]; rfl
    refine .later hp ?_ (ih (edge_follows h) htick ?_ (pending_of_blocked htick nofun))
    · rw [resumes_grant_iff h hb]; omega
    · rw [Timeline.busy_advance_sub, hn]; rfl

theorem RunsAt.resumed {b : Blocked} {n : Nat} (h : RunsAt client e k tl c b n) :
    ∃ tb, Follows UbusCoverage.init (tl.after e.draw n) tb ∧
      runFrom (step client e) k c (n + 1) =
        resume client e (k + n) { c with tb := tb, blocked := b } := by
  obtain ⟨tb, htb, hrun, hres⟩ := h.reached
  exact ⟨tb, htb, by rw [runFrom, hrun, step_resumes hres]⟩

theorem exec_cases (client : Client Op Res) (desk : Desk) (tb : Testbench) (p : Prog Op Res α)
    (acc : Account Op Res) :
    let c := exec client desk tb p acc
    (∃ tr, tb.masterDriver = .getNextItem ∧ c.tb = tb.accept (some tr) ∧ c.blocked = .item ∧
      c.account.items = acc.items ++ [tr]) ∨
    (c.tb = tb ∧ c.blocked ≠ .item ∧ c.account.items = acc.items) := by
  induction p generalizing acc with
  | ret a => exact .inr ⟨rfl, nofun, rfl⟩
  | call op next ih =>
    rw [exec]
    split
    · exact ih _ _
    · split
      · exact .inl ⟨_, by assumption, rfl, rfl, rfl⟩
      · exact .inr ⟨rfl, nofun, rfl⟩
    · split
      · exact .inr ⟨rfl, nofun, rfl⟩
      · exact ih _ _
    · exact ih _ _
    · exact .inr ⟨rfl, nofun, rfl⟩

theorem exec_accepts (client : Client Op Res) (desk : Desk) (tb : Testbench) (p : Prog Op Res α)
    (acc : Account Op Res) : ∃ offer, (exec client desk tb p acc).tb = tb.accept offer := by
  obtain ⟨tr, -, htb, -⟩ | ⟨htb, -⟩ := exec_cases client desk tb p acc
  · exact ⟨_, htb⟩
  · exact ⟨none, htb.trans tb.accept_none.symm⟩

theorem step_accepts (client : Client Op Res) (e : Platform) (k : Nat) (c : SequenceRun Op Res α) :
    ∃ offer, (step client e k c).tb = (edge e k c).accept offer := by
  obtain ⟨-, hstep⟩ | ⟨tr, -, -, hstep⟩ | ⟨-, -, hstep⟩ := step_cases client e k c
  · exact ⟨none, by rw [hstep, Testbench.accept_none]⟩
  · exact ⟨some tr, by rw [hstep]⟩
  · rw [hstep]
    exact exec_accepts ..

theorem run_env (client : Client Op Res) (e : Platform) (p : Prog Op Res α) :
    ∃ env : Env, env.draw = e.draw ∧ env.slaveFirst = e.slaveFirst ∧
      ∀ k, (run client e (.init UbusCoverage.init) p k).tb = Testbench.run env k := by
  choose offer hoffer using fun k =>
    step_accepts client e k (run client e (.init UbusCoverage.init) p k)
  refine ⟨⟨offer, e.draw, e.slaveFirst⟩, rfl, rfl, ?_⟩
  intro k
  induction k with
  | zero => rfl
  | succ k ih =>
    refine (hoffer k).trans ?_
    rw [edge, ih]
    rfl

end SequenceRun

namespace Moment

open SequenceRun (exec RunsAt Stuck)

def Free (e : Platform) (m : Moment Op Res) : Prop := ¬0 < (m.tl.advance e.draw).busy e.draw

def At (client : Client Op Res) (e : Platform) (m : Moment Op Res) (p : Prog Op Res α)
    (c : SequenceRun Op Res α) : Prop :=
  (m.starved = false ∧ ∃ tb, Follows UbusCoverage.init (m.tl.advance e.draw) tb ∧
    c = exec client (m.desk e) tb p m.account) ∨ (m.starved = true ∧ Stuck c)

variable {m : Moment Op Res}

theorem free_after {tl : Timeline} {n k waited : Nat} {starved : Bool} {acc : Account Op Res}
    (h : tl.busy e.draw ≤ n + 1) :
    Free e (⟨k, tl.after e.draw n, waited, starved, acc⟩ : Moment Op Res) := by
  rw [Free, Timeline.busy_advance_sub, Timeline.busy_after]
  omega

theorem free_grant (e : Platform) (m : Moment Op Res) : (m.grant e).Free e := by
  refine free_after ?_
  rw [Timeline.busy_advance_sub]
  omega

theorem Free.grant (h : m.Free e) : m.grant e = m := by
  have hbusy : (m.tl.advance e.draw).busy e.draw = 0 := Nat.eq_zero_of_not_pos h
  simp only [Moment.grant, hbusy]
  rfl

theorem free_send (e : Platform) (m : Moment Op Res) (tr : Item) : (m.send e tr).Free e :=
  free_after (by omega)

theorem Free.pause (h : m.Free e) (n : Nat) : (m.pause e n).Free e := by
  rw [Free, Timeline.busy_advance_sub] at h
  exact free_after (by omega)

theorem Free.busy_send (h : m.Free e) (tr : Item) :
    0 < ((m.tl.advance e.draw).accept (some tr)).busy e.draw := by
  rw [Timeline.busy_accept tr h]
  omega

structure Reaches (client : Client Op Res) (e : Platform) (k k' : Nat)
    (Q : SequenceRun Op Res α → Prop) (c : SequenceRun Op Res α) : Prop where
  later : k ≤ k'
  reached : Q (runFrom (SequenceRun.step client e) (k + 1) c (k' - k))
  pending : ∀ n < k' - k, SequenceRun.Pending (runFrom (SequenceRun.step client e) (k + 1) c n)

variable {Q Q' : SequenceRun Op Res α → Prop} {c : SequenceRun Op Res α} {k k' k'' : Nat}

theorem reaches_same (k : Nat) (h : Q c) : Reaches client e k k Q c where
  later := le_rfl
  reached := by
    rw [Nat.sub_self]
    exact h
  pending := by
    rw [Nat.sub_self]
    nofun

theorem Reaches.trans (h : Reaches client e k k' Q c)
    (h' : ∀ c', Q c' → Reaches client e k' k'' Q' c') : Reaches client e k k'' Q' c := by
  obtain ⟨hle, hreached, hpending⟩ := h
  obtain ⟨hle', hreached', hpending'⟩ := h' _ hreached
  refine ⟨hle.trans hle', ?_, ?_⟩
  · rw [Realtime.runFrom_split hle hle']
    exact hreached'
  · intro n hn
    rcases Nat.lt_or_ge n (k' - k) with hlt | hge
    · exact hpending n hlt
    · obtain ⟨d, rfl⟩ := Nat.exists_eq_add_of_le hge
      rw [Clocked.runFrom_add, show k + 1 + (k' - k) = k' + 1 by omega]
      exact hpending' d (by omega)

theorem reaches_of_runsAt {tl : Timeline} {b : Blocked} {n : Nat} (hk : k' = k + 1 + n)
    (h : RunsAt client e (k + 1) tl c b n)
    (hQ : ∀ tb, Follows UbusCoverage.init (tl.after e.draw n) tb →
      Q (SequenceRun.resume client e k' { c with tb := tb, blocked := b })) :
    Reaches client e k k' Q c := by
  obtain ⟨tb, htb, hrun⟩ := h.resumed
  have hsteps : k' - k = n + 1 := by omega
  refine ⟨by omega, ?_, ?_⟩
  · rw [hsteps, hrun, ← hk]
    exact hQ tb htb
  · intro j hj
    rw [hsteps] at hj
    exact h.pending j (Nat.le_of_lt_succ hj)

theorem reaches_stuck (h : Stuck c) (hk : k ≤ k') : Reaches client e k k' Stuck c :=
  ⟨hk, SequenceRun.stuck_runFrom h _, fun n _ => (SequenceRun.stuck_runFrom h n).pending⟩

def Granted (e : Platform) (m : Moment Op Res) (tr : Item) (p : Prog Op Res α)
    (c : SequenceRun Op Res α) : Prop :=
  m.Free e ∧ ∃ tb, Follows UbusCoverage.init (m.tl.advance e.draw) tb ∧
    c = ⟨tb.accept (some tr), p, .item, m.account.send tr⟩

theorem reaches_granted {p : Prog Op Res α} {tb : Testbench} (tr : Item) (hbusy : ¬m.Free e)
    (htb : Follows UbusCoverage.init (m.tl.advance e.draw) tb) :
    Reaches client e m.edge (m.grant e).edge (Granted e (m.grant e) tr p)
      ⟨tb, p, .grant tr, m.account⟩ := by
  obtain ⟨n, hn⟩ := Nat.exists_eq_add_of_lt (not_not.mp hbusy)
  rw [Nat.zero_add] at hn
  have hruns : RunsAt client e (m.edge + 1) (m.tl.advance e.draw)
      (⟨tb, p, .grant tr, m.account⟩ : SequenceRun Op Res α) (.grant tr) n :=
    SequenceRun.runsAt_grant htb rfl hn
  have hedge : (m.grant e).edge = m.edge + 1 + n := by
    simp only [grant, hn]
    omega
  refine reaches_of_runsAt hedge hruns ?_
  intro tb' htb'
  let c' : SequenceRun Op Res α := ⟨tb', p, .grant tr, m.account⟩
  have hfollows : Follows UbusCoverage.init _ (c'.edge e (m.grant e).edge) :=
    SequenceRun.edge_follows htb'
  refine ⟨free_grant e m, _, ?_, rfl⟩
  have htl : (m.grant e).tl.advance e.draw =
      ((m.tl.advance e.draw).after e.draw n).advance e.draw := by
    simp only [grant, hn]
    rw [Timeline.advance_after, Timeline.after_succ]
  rw [htl]
  exact hfollows

theorem at_exec (c : SequenceRun Op Res α) (p : Prog Op Res α) (hs : m.starved = false)
    (h : Follows UbusCoverage.init m.tl c.tb) (hitems : m.account.items = c.account.items) :
    At client e m p (exec client (c.desk e m.edge) (c.edge e m.edge) p m.account) := by
  have hdesk : c.desk e m.edge = m.desk e := SequenceRun.desk_eq h hitems m.waited m.starved
  refine .inl ⟨hs, c.edge e m.edge, SequenceRun.edge_follows h, ?_⟩
  rw [hdesk]

theorem reaches_transfer {p : Prog Op Res α} {tr : Item} (hs : m.starved = false)
    (h : Granted e m tr p c) :
    Reaches client e m.edge (m.transfer e tr).edge (At client e (m.transfer e tr) p) c := by
  obtain ⟨hfree, tb, htb, rfl⟩ := h
  obtain ⟨n, hn⟩ := Nat.exists_eq_add_of_lt (hfree.busy_send tr)
  rw [Nat.zero_add] at hn
  have hruns : RunsAt client e (m.edge + 1) ((m.tl.advance e.draw).accept (some tr))
      (⟨tb.accept (some tr), p, .item, m.account.send tr⟩ : SequenceRun Op Res α) .item n :=
    SequenceRun.runsAt_item (accept_follows htb (some tr)) rfl hn
  have hedge : (m.transfer e tr).edge = m.edge + 1 + n := by
    simp only [transfer, deliver, hn]
    omega
  refine reaches_of_runsAt hedge hruns ?_
  intro tb' htb'
  have htl : (m.transfer e tr).tl = ((m.tl.advance e.draw).accept (some tr)).after e.draw n := by
    simp only [transfer, deliver, hn, Nat.add_sub_cancel]
  rw [← htl] at htb'
  let c' : SequenceRun Op Res α := ⟨tb', p, .item, m.account.send tr⟩
  have hresponse : c'.response e (m.transfer e tr).edge = (m.transfer e tr).response e :=
    SequenceRun.response_eq htb' (m.transfer e tr).account m.waited m.starved
  have haccount : (m.transfer e tr).account =
      (m.account.send tr).deliver (c'.response e (m.transfer e tr).edge) := by
    rw [hresponse]
    rfl
  change At client e (m.transfer e tr) p
    (exec client (c'.desk e (m.transfer e tr).edge) (c'.edge e (m.transfer e tr).edge) p
      ((m.account.send tr).deliver (c'.response e (m.transfer e tr).edge)))
  rw [← haccount]
  exact at_exec c' p hs htb' rfl

theorem reaches_send {p : Prog Op Res α} {tb : Testbench} (tr : Item) (hs : m.starved = false)
    (htb : Follows UbusCoverage.init (m.tl.advance e.draw) tb) :
    Reaches client e m.edge (m.send e tr).edge (At client e (m.send e tr) p)
      (if tb.masterDriver = .getNextItem then ⟨tb.accept (some tr), p, .item, m.account.send tr⟩
      else ⟨tb, p, .grant tr, m.account⟩) := by
  have hgranted : Reaches client e m.edge (m.grant e).edge (Granted e (m.grant e) tr p)
      (if tb.masterDriver = .getNextItem then ⟨tb.accept (some tr), p, .item, m.account.send tr⟩
      else ⟨tb, p, .grant tr, m.account⟩) := by
    by_cases hfree : m.Free e
    · rw [if_pos ((htb.getNextItem_iff e.draw).mpr hfree), hfree.grant]
      exact reaches_same m.edge ⟨hfree, tb, htb, rfl⟩
    · rw [if_neg (mt (htb.getNextItem_iff e.draw).mp hfree)]
      exact reaches_granted tr hfree htb
  exact hgranted.trans fun c hc => reaches_transfer hs hc

theorem reaches_pause {p : Prog Op Res α} {tb : Testbench} (n : Nat) (hs : m.starved = false)
    (htb : Follows UbusCoverage.init (m.tl.advance e.draw) tb) :
    Reaches client e m.edge (m.pause e (n + 1)).edge (At client e (m.pause e (n + 1)) p)
      ⟨tb, p, .edges n, m.account.pause (n + 1)⟩ := by
  have hruns : RunsAt client e (m.edge + 1) (m.tl.advance e.draw)
      (⟨tb, p, .edges n, m.account.pause (n + 1)⟩ : SequenceRun Op Res α) (.edges 0) n :=
    SequenceRun.runsAt_edges htb rfl
  have hedge : (m.pause e (n + 1)).edge = m.edge + 1 + n := by
    simp only [pause]
    omega
  refine reaches_of_runsAt hedge hruns ?_
  intro tb' htb'
  rw [← Timeline.advance_after, ← Timeline.after_succ] at htb'
  let c' : SequenceRun Op Res α := ⟨tb', p, .edges 0, m.account.pause (n + 1)⟩
  exact at_exec c' p hs htb' rfl

theorem handle_later (client : Client Op Res) (e : Platform) (op : Op) (m : Moment Op Res) :
    m.edge ≤ (handle e client op m).2.edge := by
  rw [handle]
  split
  · exact le_rfl
  · exact (Nat.le_add_right _ _).trans (Nat.le_add_right _ _)
  · exact le_rfl
  · exact Nat.le_add_right _ _

theorem starved_handle (client : Client Op Res) (e : Platform) (op : Op) {m : Moment Op Res}
    (h : m.starved = true) : (handle e client op m).2.starved = true := by
  rw [handle]
  split
  · exact h
  · exact h
  · exact Bool.or_eq_true_iff.mpr (.inl h)
  · exact h

theorem handle_reaches {op : Op} {next : Res op → Prog Op Res α} {c : SequenceRun Op Res α}
    (h : At client e m (.call op next) c) :
    Reaches client e m.edge (handle e client op m).2.edge
      (At client e (handle e client op m).2 (next (handle e client op m).1)) c := by
  rcases h with ⟨hs, tb, htb, rfl⟩ | ⟨hs, hstuck⟩
  · rw [handle, exec]
    cases client (m.desk e) op with
    | now r => exact reaches_same m.edge (.inl ⟨hs, tb, htb, rfl⟩)
    | send tr r => exact reaches_send (m := m.note op r) tr hs htb
    | take f =>
      cases hq : m.account.queue with
      | nil =>
        refine reaches_same m.edge (.inr ⟨?_, rfl, hq⟩)
        simp [take, note, Account.note, hq]
      | cons rsp queue =>
        have holdest : m.oldest = rsp := by simp [oldest, hq]
        refine reaches_same m.edge (.inl ⟨?_, tb, htb, ?_⟩)
        · simp [take, note, Account.note, hq, hs]
        · rw [holdest]
          rfl
    | edges n r =>
      cases n with
      | zero => exact reaches_same m.edge (.inl ⟨hs, tb, htb, rfl⟩)
      | succ n => exact reaches_pause (m := m.note op r) n hs htb
  · have hwaits : Reaches client e m.edge (handle e client op m).2.edge Stuck c :=
      reaches_stuck hstuck (handle_later client e op m)
    obtain ⟨hle, hreached, hpending⟩ := hwaits
    exact ⟨hle, .inr ⟨starved_handle client e op hs, hreached⟩, hpending⟩

theorem realizes (client : Client Op Res) (e : Platform) :
    Realtime.Realizes (SequenceRun.step client e) edge (handle e client)
      (At (α := α) client e) SequenceRun.Pending where
  later := handle_later client e
  call h := (handle_reaches h).reached
  pending h := (handle_reaches h).pending

end Moment

end UbusVip
