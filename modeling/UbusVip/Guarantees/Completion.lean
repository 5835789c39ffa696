import UbusVip.ClosureTest
import UbusVip.Exchange
import UbusVip.Guarantees.Progress
import UbusVip.Refinement.Sequencer

namespace UbusVip

open Clocked (runFrom)
open Interaction (Prog)
open SlaveSequence (Draw)

variable {Op : Type} {Res : Op → Type} {α : Type} {client : Client Op Res} {e : Platform}

def itemEdges (draw : Nat → Draw) (base : Nat) (items : List Item) : Nat :=
  (items.mapIdx fun j tr => transferEdges tr.val (draw (base + j)).waitState).sum

theorem itemEdges_concat (draw : Nat → Draw) (base : Nat) (items : List Item) (tr : Item) :
    itemEdges draw base (items ++ [tr]) =
      itemEdges draw base items +
        transferEdges tr.val (draw (base + items.length)).waitState := by
  simp [itemEdges, List.mapIdx_append]

theorem Timeline.transferEdges_eq {draw : Nat → Draw} {tl : Timeline} (tr : Item)
    (h : ¬0 < tl.busy draw) :
    (tl.accept (some tr)).busy draw = transferEdges tr.val (draw tl.items.length).waitState := by
  obtain ⟨late, hphase⟩ := idle_of_not_busy h
  have hlen : tl.items.length = tl.opened.length := by simp [items, pending, hphase]
  rw [busy_accept tr h, hlen, transferEdges, tr.write_eq]
  cases tr.val.read with
  | true => simp [Transfer.tailSpan]; omega
  | false => simp [Transfer.tailSpan]; omega

theorem Timeline.reported_of_resting {draw : Nat → Draw} {tl : Timeline} (h : ¬0 < tl.busy draw) :
    (tl.advance draw).reported.map (·.item) = (tl.advance draw).items := by
  obtain ⟨late, hphase⟩ := idle_of_not_busy h
  simp only [advance, hphase, reported, items, opened, pending]
  cases htl : tl.past ++ late.toList <;> simp

namespace Moment

structure Billed (e : Platform) (tl : Timeline) (m : Moment Op Res) : Prop where
  items : m.tl.items = tl.items ++ m.account.items
  edge : m.edge = m.waited + itemEdges e.draw tl.items.length m.account.items + m.account.paused
  waited : m.waited + (m.tl.advance e.draw).busy e.draw ≤ tl.busy e.draw - 1
  free : m.account.items ≠ [] → m.Free e

theorem billed_start (e : Platform) (tl : Timeline) : (start tl : Moment Op Res).Billed e tl where
  items := (List.append_nil _).symm
  edge := rfl
  waited := by
    change 0 + (tl.advance e.draw).busy e.draw ≤ _
    rw [Nat.zero_add, Timeline.busy_advance_sub]
  free h := absurd rfl h

variable {tl : Timeline} {m : Moment Op Res}

theorem Billed.note (h : m.Billed e tl) (op : Op) (r : Res op) : (m.note op r).Billed e tl :=
  ⟨h.items, h.edge, h.waited, h.free⟩

theorem Billed.take (h : m.Billed e tl) : m.take.Billed e tl := ⟨h.items, h.edge, h.waited, h.free⟩

theorem Billed.pause (h : m.Billed e tl) (n : Nat) : (m.pause e n).Billed e tl := by
  have hedge := h.edge
  have hwaited := h.waited
  refine ⟨(Timeline.items_after n m.tl).trans h.items, ?_, ?_, fun hne => (h.free hne).pause n⟩
  · change m.edge + n = m.waited + itemEdges e.draw tl.items.length m.account.items +
      (m.account.paused + n)
    omega
  · change m.waited + ((m.tl.after e.draw n).advance e.draw).busy e.draw ≤ _
    rw [Timeline.advance_after, Timeline.busy_after]
    omega

theorem Billed.grant (h : m.Billed e tl) : (m.grant e).Billed e tl := by
  have hedge := h.edge
  have hwaited := h.waited
  have hfree : ¬0 < ((m.grant e).tl.advance e.draw).busy e.draw := free_grant e m
  refine ⟨(Timeline.items_after _ m.tl).trans h.items, ?_, ?_, fun _ => hfree⟩
  · change m.edge + (m.tl.advance e.draw).busy e.draw =
      m.waited + (m.tl.advance e.draw).busy e.draw +
        itemEdges e.draw tl.items.length m.account.items + m.account.paused
    omega
  · change m.waited + (m.tl.advance e.draw).busy e.draw +
      ((m.grant e).tl.advance e.draw).busy e.draw ≤ _
    omega

theorem Billed.transfer (h : m.Billed e tl) (hfree : m.Free e) (tr : Item) :
    (m.transfer e tr).Billed e tl := by
  have hitems : (m.tl.advance e.draw).items = tl.items ++ m.account.items :=
    (Timeline.items_advance _ _).trans h.items
  have hlen := congrArg List.length hitems
  have hedge := h.edge
  have hwaited := h.waited
  have hfree' : (m.transfer e tr).Free e := free_after (by omega)
  refine ⟨?_, ?_, ?_, fun _ => hfree'⟩
  · change (((m.tl.advance e.draw).accept (some tr)).after e.draw _).items = _
    rw [Timeline.items_after, Timeline.items_accept tr hfree, hitems, List.append_assoc]
    rfl
  · change m.edge + ((m.tl.advance e.draw).accept (some tr)).busy e.draw =
      m.waited + itemEdges e.draw tl.items.length (m.account.items ++ [tr]) + m.account.paused
    rw [Timeline.transferEdges_eq tr hfree, hlen, List.length_append, itemEdges_concat]
    omega
  · have hidle : ¬0 < ((m.transfer e tr).tl.advance e.draw).busy e.draw := hfree'
    change m.waited + ((m.transfer e tr).tl.advance e.draw).busy e.draw ≤ _
    omega

theorem Billed.send (h : m.Billed e tl) (tr : Item) : (m.send e tr).Billed e tl :=
  h.grant.transfer (free_grant e m) tr

theorem Billed.handle (h : m.Billed e tl) (op : Op) : (handle e client op m).2.Billed e tl := by
  rw [Moment.handle]
  split
  · exact h.note ..
  · exact (h.note ..).send _
  · exact (h.note ..).take
  · exact (h.note ..).pause _

theorem run_billed (client : Client Op Res) (e : Platform) (tl : Timeline) (p : Prog Op Res α) :
    (p.run (handle e client) (start tl)).2.Billed e tl :=
  Prog.run_invariant (P := Billed e tl) _ (fun op _ h => h.handle op) p (billed_start e tl)

theorem Billed.free_of (h : m.Billed e tl) (hd : ¬0 < tl.busy e.draw ∨ m.account.items ≠ []) :
    m.Free e := by
  rcases hd with hidle | hne
  · have hwaited := h.waited
    rw [Free]
    omega
  · exact h.free hne

theorem start_at {tb : Testbench} (h : Follows UbusCoverage.init tl tb) (client : Client Op Res)
    (e : Platform) (p : Prog Op Res α) :
    At client e (start tl) p (SequenceRun.run client e tb p 1) := by
  let c : SequenceRun Op Res α := .start tb p
  have hrun : SequenceRun.run client e tb p 1 = SequenceRun.exec client (c.desk e 0) (c.edge e 0) p .empty :=
    SequenceRun.step_resumes (c := c) trivial
  rw [hrun]
  exact at_exec (m := start tl) c p rfl h rfl

theorem run_at {tb : Testbench} (h : Follows UbusCoverage.init tl tb) (client : Client Op Res)
    (e : Platform) (p : Prog Op Res α) :
    let out := p.run (handle e client) (start tl)
    At client e out.2 (.ret out.1) (SequenceRun.run client e tb p (out.2.edge + 1)) ∧
      ∀ k ≤ out.2.edge, (SequenceRun.run client e tb p k).Pending := by
  intro out
  have hstart := start_at h client e p
  have hreal := realizes (α := α) client e
  have hsplit (n : Nat) : SequenceRun.run client e tb p (n + 1) =
      runFrom (SequenceRun.step client e) 1 (SequenceRun.run client e tb p 1) n := by
    simp only [SequenceRun.run, Clocked.run_eq_runFrom]
    rw [Nat.add_comm, Clocked.runFrom_add]
  constructor
  · rw [hsplit]
    exact hreal.run hstart
  · intro k hk
    cases k with
    | zero => exact SequenceRun.pending_of_blocked rfl nofun
    | succ n =>
      rw [hsplit]
      exact hreal.run_pending hstart hk

end Moment

namespace SequenceRun

def HasDriver (s : Testbench) (acc : Account Op Res) : Prop :=
  s.masterDriver = .getNextItem ∨ acc.items ≠ []

structure Completed (s : Testbench) (a : α) (acc : Account Op Res) (c : SequenceRun Op Res α) :
    Prop where
  ended : c.blocked = .ended
  rest : c.rest = .ret a
  account : c.account = acc
  driven : c.tb.driven = s.driven ++ acc.items
  returned : HasDriver s acc → headers c.tb.returned = itemHeaders c.tb.driven

variable {s : Testbench} {a : α} {acc : Account Op Res} {k : Nat} {c : SequenceRun Op Res α}

theorem step_ended (h : c.blocked = .ended) : step client e k c = { c with tb := edge e k c } := by
  have hr : ¬Resumes e k c := by
    rw [Resumes, h]
    exact id
  rw [step_blocked hr, h]
  rfl

structure Rests (s : Testbench) (a : α) (acc : Account Op Res) (tl : Timeline)
    (c : SequenceRun Op Res α) : Prop where
  ended : c.blocked = .ended
  rest : c.rest = .ret a
  account : c.account = acc
  follows : Follows UbusCoverage.init tl c.tb
  idle : HasDriver s acc → ¬0 < tl.busy e.draw
  items : tl.items = s.driven ++ acc.items

theorem Rests.step {tl : Timeline} (h : Rests (e := e) s a acc tl c) :
    Rests (e := e) s a acc (tl.advance e.draw) (step client e k c) := by
  rw [step_ended h.ended]
  exact ⟨h.ended, h.rest, h.account, edge_follows h.follows,
    fun hd => Timeline.advance_of_not_busy (h.idle hd), (Timeline.items_advance _ _).trans h.items⟩

theorem Rests.completed {tl : Timeline} (h : Rests (e := e) s a acc tl c) : Completed s a acc c where
  ended := h.ended
  rest := h.rest
  account := h.account
  driven := h.follows.driven.trans h.items
  returned hd := by
    rw [h.follows.returned, h.follows.driven]
    exact (handed_headers _).trans (congrArg itemHeaders (Timeline.items_of_not_busy (h.idle hd)))

theorem Rests.after {tl : Timeline} (h : Rests (e := e) s a acc tl c) (k n : Nat) :
    Rests (e := e) s a acc (tl.after e.draw n) (runFrom (SequenceRun.step client e) k c n) := by
  induction n with
  | zero => exact h
  | succ n ih =>
    rw [Timeline.after_succ]
    exact ih.step

theorem run_add (client : Client Op Res) (e : Platform) (tb : Testbench) (p : Prog Op Res α)
    (k n : Nat) :
    run client e tb p (k + n) = runFrom (SequenceRun.step client e) k (run client e tb p k) n := by
  simp only [run, Clocked.run_eq_runFrom, Clocked.runFrom_add, Nat.zero_add]

theorem run_rests {tb : Testbench} {tl : Timeline} (h : Follows UbusCoverage.init tl tb)
    (client : Client Op Res) (e : Platform) (p : Prog Op Res α) :
    let out := p.run (Moment.handle e client) (.start tl)
    let K := 1 + out.2.waited + itemEdges e.draw tb.driven.length out.2.account.items +
      out.2.account.paused
    (∀ k < K, (run client e tb p k).Pending) ∧
      (out.2.starved = true → ∀ k, (run client e tb p k).Pending) ∧
      (out.2.starved = false → ∀ n, Rests (e := e) tb out.1 out.2.account
        ((out.2.tl.advance e.draw).after e.draw n) (run client e tb p (K + n))) := by
  intro out K
  have hdriven : tb.driven = tl.items := h.driven
  have hbill : out.2.Billed e tl := Moment.run_billed client e tl p
  have hK : K = out.2.edge + 1 := by
    have hedge := hbill.edge
    rw [← hdriven] at hedge
    omega
  obtain ⟨hat, hpending⟩ := Moment.run_at h client e p
  refine ⟨fun k hk => hpending k (Nat.le_of_lt_succ (hk.trans_eq hK)), ?_, ?_⟩
  · intro hs k
    obtain ⟨hs', -⟩ | ⟨-, hstuck⟩ := hat
    · rw [hs] at hs'
      cases hs'
    · rcases Nat.lt_or_ge out.2.edge k with hlt | hge
      · obtain ⟨n, rfl⟩ := Nat.exists_eq_add_of_le (Nat.succ_le_of_lt hlt)
        rw [run_add]
        exact (stuck_runFrom hstuck n).pending
      · exact hpending k hge
  · intro hs n
    obtain ⟨-, tb', htb', hc⟩ | ⟨hs', -⟩ := hat
    · have hidle : HasDriver tb out.2.account → out.2.Free e :=
        fun hd => hbill.free_of (hd.imp_left (h.getNextItem_iff e.draw).mp)
      have hrests : Rests (e := e) tb out.1 out.2.account (out.2.tl.advance e.draw)
          (run client e tb p K) := by
        rw [hK, hc]
        exact ⟨rfl, rfl, rfl, htb', hidle, (Timeline.items_advance _ _).trans (hdriven ▸ hbill.items)⟩
      rw [run_add]
      exact hrests.after K n
    · rw [hs] at hs'
      cases hs'

theorem exists_rests {tb : Testbench} {tl : Timeline} (h : Follows UbusCoverage.init tl tb)
    {client : Client Op Res} (e : Platform) {p : Prog Op Res α} (hp : Fed client p) :
    let out := p.run (Moment.handle e client) (.start tl)
    ∃ K, K = 1 + out.2.waited + itemEdges e.draw tb.driven.length out.2.account.items +
        out.2.account.paused ∧ out.2.waited ≤ tl.busy e.draw - 1 ∧
      (∀ k < K, (run client e tb p k).Pending) ∧
      ∀ n, Rests (e := e) tb out.1 out.2.account ((out.2.tl.advance e.draw).after e.draw n)
        (run client e tb p (K + n)) := by
  intro out
  have hbill : out.2.Billed e tl := Moment.run_billed client e tl p
  obtain ⟨hpending, -, hrests⟩ := run_rests h client e p
  exact ⟨_, rfl, (Nat.le_add_right _ _).trans hbill.waited, hpending, hrests (Moment.starved_run hp _)⟩

theorem run_drained {client : Client Op Res} (e : Platform) {p : Prog Op Res α}
    (hp : Fed client p) :
    let tb := Testbench.init UbusCoverage.init
    let out := p.run (Moment.handle e client) (.start .init)
    ∃ K, ∀ k, K ≤ k → Completed tb out.1 out.2.account (run client e tb p k) ∧
      (run client e tb p k).tb.masterCollected.length = (run client e tb p k).tb.driven.length := by
  intro tb out
  obtain ⟨K, -, -, -, hrests⟩ := exists_rests (follows_init UbusCoverage.init) e hp
  refine ⟨K + 1, ?_⟩
  intro k hk
  obtain ⟨n, rfl⟩ := Nat.exists_eq_add_of_le hk
  rw [Nat.add_assoc, Nat.add_comm 1]
  have hrest := hrests (n + 1)
  have hidle := (hrests n).idle (.inl rfl)
  refine ⟨hrest.completed, ?_⟩
  rw [hrest.follows.published.masterCollected, hrest.follows.driven]
  refine (reportsFrom_length true _).trans ?_
  have hlen := congrArg List.length (Timeline.reported_of_resting hidle)
  rw [List.length_map] at hlen
  rw [Timeline.after_succ]
  exact hlen

end SequenceRun

theorem sequence_completes (client : Client Op Res) (e : Platform) (env : Env) (k₀ : Nat)
    (p : Prog Op Res α) :
    let s := Testbench.run env k₀
    let tl := Timeline.run env k₀
    let c := SequenceRun.run client e s p
    let out := p.run (Moment.handle e client) (.start tl)
    let K := 1 + out.2.waited + itemEdges e.draw s.driven.length out.2.account.items +
      out.2.account.paused
    out.2.waited ≤ tl.busy e.draw - 1 ∧ (∀ k < K, (c k).Pending) ∧
      (out.2.starved = true → ∀ k, (c k).Pending) ∧
      (out.2.starved = false → ∀ k, K ≤ k → (c k).Completed s out.1 out.2.account) := by
  intro s tl c out K
  have hbill : out.2.Billed e tl := Moment.run_billed client e tl p
  obtain ⟨hpending, hstarved, hrests⟩ := SequenceRun.run_rests (run_follows env k₀) client e p
  refine ⟨(Nat.le_add_right _ _).trans hbill.waited, hpending, hstarved, ?_⟩
  intro hs k hk
  obtain ⟨n, rfl⟩ := Nat.exists_eq_add_of_le hk
  exact (hrests hs n).completed

theorem sequence_completes_whileBusy :
    let e : Platform := ⟨fun _ => .fixed 1, fun _ => false, fun _ => false⟩
    let c := SequenceRun.run (UbusTargetAddrDirSeqf.client UbusTargetAddrDirSeqf.halfWords) e
      (Testbench.run .writeThenRead 2) (UbusTargetAddrDirSeqf.doTransaction 0 0)
    (∀ k < 11, (c k).Pending) ∧ ∀ k, 11 ≤ k → (c k).blocked = .ended ∧
      headers (c k).tb.returned = itemHeaders (c k).tb.driven := by
  intro e c
  obtain ⟨-, hpending, -, hdone⟩ :=
    sequence_completes (UbusTargetAddrDirSeqf.client UbusTargetAddrDirSeqf.halfWords) e .writeThenRead 2
      (UbusTargetAddrDirSeqf.doTransaction 0 0)
  refine ⟨hpending, fun k hk => ?_⟩
  have hcompleted := hdone (by decide) k hk
  exact ⟨hcompleted.ended, hcompleted.returned (.inr (by decide))⟩

end UbusVip
