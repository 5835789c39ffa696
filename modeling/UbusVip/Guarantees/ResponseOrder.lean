import UbusVip.Guarantees.Completion
import UbusVip.Guarantees.Pairing

namespace UbusVip

open Interaction (Prog)
open SlaveSequence (Draw)

namespace Timeline

variable {draw : Nat → Draw} {tl : Timeline}

theorem past_prefix_finished (tl : Timeline) : tl.past <+: tl.finished := by
  obtain ⟨past, phase, mem⟩ := tl
  cases phase with
  | idle late | command late tr => exact List.prefix_append _ _
  | address tr | wait t i | beat t i | tail t hr => exact List.prefix_rfl

theorem finished_prefix_after (draw : Nat → Draw) (n : Nat) (tl : Timeline) :
    tl.finished <+: (tl.after draw n).finished := by
  induction n with
  | zero => exact List.prefix_rfl
  | succ n ih =>
    rw [after_succ]
    exact ih.trans ((finished_prefix_past draw _).trans (past_prefix_finished _))

theorem finished_after_of_not_busy (h : ¬0 < tl.busy draw) (n : Nat) :
    (tl.after draw n).finished = tl.finished := by
  obtain ⟨late, hphase⟩ := idle_of_not_busy h
  have hbusy : ¬0 < (tl.after draw n).busy draw := by
    rw [busy_after]
    omega
  have hitems : (tl.after draw n).finished.map (·.item) = tl.finished.map (·.item) := by
    rw [items_of_not_busy hbusy, items_of_not_busy h, items_after]
  have hlen := congrArg List.length hitems
  rw [List.length_map, List.length_map] at hlen
  exact ((finished_prefix_after draw n tl).eq_of_length hlen.symm).symm

end Timeline

section Responses

variable {Op : Type} {Res : Op → Type} {α : Type} {client : Client Op Res} {e : Platform}

namespace Moment

variable {m : Moment Op Res} {op op' : Op}

theorem Free.returned_pause (h : m.Free e) (n : Nat) :
    (m.pause e n).returned e = m.returned e := by
  have hadv : ((m.tl.after e.draw n).advance e.draw).finished = (m.tl.advance e.draw).finished := by
    rw [Timeline.advance_after, Timeline.finished_after_of_not_busy h]
  exact congrArg (List.map _) hadv

theorem Free.returned_transfer (h : m.Free e) (tr : Item) :
    (m.transfer e tr).returned e = m.returned e ++ [(m.transfer e tr).response e] := by
  let tl := m.tl.advance e.draw
  let tl' := (m.transfer e tr).tl.advance e.draw
  have hidle : ¬0 < tl'.busy e.draw := free_after (by omega)
  have hitems : tl'.finished.map (·.item) = tl.finished.map (·.item) ++ [tr] := by
    rw [Timeline.items_of_not_busy hidle, Timeline.items_of_not_busy h, Timeline.items_advance]
    exact (Timeline.items_after _ _).trans (Timeline.items_accept tr h)
  have hprefix : tl.finished <+: tl'.finished := by
    have hafter := Timeline.finished_prefix_after e.draw ((tl.accept (some tr)).busy e.draw - 1 + 1)
      (tl.accept (some tr))
    rw [Timeline.finished_accept, Timeline.after_succ] at hafter
    exact hafter
  obtain ⟨rest, hrest⟩ := hprefix
  rw [← hrest, List.map_append, List.append_cancel_left_eq] at hitems
  obtain ⟨t, rfl⟩ : ∃ t, rest = [t] := by
    rw [← List.length_eq_one_iff, ← List.length_map (f := fun t : Transfer => t.item), hitems]
    rfl
  have hreturned : (m.transfer e tr).returned e = m.returned e ++ [t.handed t.size] := by
    change tl'.finished.map _ = tl.finished.map _ ++ _
    rw [← hrest, List.map_append]
    rfl
  rw [response, hreturned, List.getLast?_concat, Option.getD_some]

theorem Free.send_eq (h : m.Free e) (tr : Item) : m.send e tr = m.transfer e tr := by
  rw [send, h.grant]

theorem account_transfer (tr : Item) :
    (m.transfer e tr).account = (m.account.send tr).deliver ((m.transfer e tr).response e) := rfl

structure Answered (e : Platform) (m : Moment Op Res) : Prop where
  free : m.Free e
  queue : m.account.queue = []
  taken : m.account.taken = m.returned e

theorem Answered.note (h : m.Answered e) (r : Res op) : (m.note op r).Answered e :=
  ⟨h.free, h.queue, h.taken⟩

theorem Answered.pause (h : m.Answered e) (n : Nat) : (m.pause e n).Answered e :=
  ⟨h.free.pause n, h.queue, h.taken.trans (h.free.returned_pause n).symm⟩

theorem Answered.alone (h : m.Answered e) (hop : Waits client op) :
    (handle e client op m).2.Answered e := by
  obtain ⟨hsend, htake⟩ := hop (m.desk e)
  rw [handle]
  cases hd : client (m.desk e) op with
  | now r => exact h.note r
  | send tr r => exact absurd (hd ▸ trivial) hsend
  | take f => exact absurd (hd ▸ trivial) htake
  | edges n r => exact (h.note r).pause n

theorem Answered.exchange (h : m.Answered e) (hop : Sends client op) (hop' : Takes client op') :
    (handle e client op' (handle e client op m).2).2.Answered e := by
  obtain ⟨tr, r, hsend⟩ := (hop (m.desk e)).eq_send
  have hnote := h.note r
  let m' := (m.note op r).transfer e tr
  have hs : (handle e client op m).2 = m' := by
    rw [handle_of_send hsend]
    exact hnote.free.send_eq tr
  obtain ⟨f, htake⟩ := (hop' (m'.desk e)).eq_take
  have hqueue : m'.account.queue = [m'.response e] := by
    rw [account_transfer, Account.deliver, Account.send, hnote.queue]
    rfl
  rw [hs, handle_of_take htake]
  refine ⟨free_after (by omega), ?_, ?_⟩
  · change m'.account.queue.tail = []
    rw [hqueue]
    rfl
  · change (m.note op r).account.taken ++ m'.account.queue.head?.toList = m'.returned e
    rw [hqueue, hnote.free.returned_transfer, hnote.taken]
    rfl

theorem answered_run {p : Prog Op Res α} (hp : Paired client p) (h : m.Answered e) :
    (p.run (handle e client) m).2.Answered e := by
  induction hp generalizing m with
  | ret a => exact h
  | alone hop _ ih => exact ih _ _ (gives_handle client e _ m) (h.alone hop)
  | exchange hop hop' _ ih =>
    exact ih _ _ _ _ (gives_handle client e _ m) (gives_handle client e _ _) (h.exchange hop hop')

structure Unanswered (e : Platform) (m : Moment Op Res) : Prop where
  free : m.Free e
  queue : m.account.queue = (m.returned e).take responseDepth
  taken : m.account.taken = []

theorem Unanswered.sends (h : m.Unanswered e) (hop : Sends client op) :
    (handle e client op m).2.Unanswered e := by
  obtain ⟨tr, r, hsend⟩ := (hop (m.desk e)).eq_send
  have hfree : (m.note op r).Free e := h.free
  rw [handle_of_send hsend, hfree.send_eq]
  refine ⟨free_after (by omega), ?_, h.taken⟩
  rw [hfree.returned_transfer, account_transfer, Account.deliver]
  change (if m.account.queue.length < responseDepth then m.account.queue ++ [_]
    else m.account.queue) = (m.returned e ++ [_]).take responseDepth
  rw [h.queue, List.length_take]
  split
  · rw [List.take_of_length_le (by omega), List.take_of_length_le (by simp; omega)]
  · rw [List.take_append_of_le_length (by omega)]

end Moment

theorem SequenceRun.Rests.returned_eq {s : Testbench} {a : α} {acc : Account Op Res}
    {m : Moment Op Res} {n : Nat} {c : SequenceRun Op Res α}
    (h : Rests (e := e) s a acc ((m.tl.advance e.draw).after e.draw n) c) (hm : m.Free e) :
    c.tb.returned = m.returned e :=
  h.follows.returned.trans (congrArg (List.map _) (Timeline.finished_after_of_not_busy hm n))

theorem SequenceRun.run_tidy {p : Prog Op Res α} (hp : Paired client p) (e : Platform)
    (tb : Testbench) (k : Nat) : (run client e tb p k).Tidy client :=
  Clocked.run_invariant ⟨rfl, hp⟩ (fun k _ h => h.step e k) k

def AnswersInOrder (e : Platform) (client : Client Op Res) (p : Prog Op Res α) : Prop :=
  let c := SequenceRun.run client e (.init UbusCoverage.init) p
  (∀ k, (c k).account.queue = [] ∧ (c k).blocked ≠ .response) ∧
    ∃ K, ∀ k, K ≤ k → (c k).blocked = .ended ∧ (c k).tb.driven = (c k).account.items ∧
      headers (c k).tb.returned = itemHeaders (c k).tb.driven ∧
      (c k).account.taken = (c k).tb.returned

theorem Paired.answersInOrder {p : Prog Op Res α} (hp : Paired client p) (e : Platform) :
    AnswersInOrder e client p := by
  have htidy := SequenceRun.run_tidy hp e (.init UbusCoverage.init)
  obtain ⟨K, -, -, -, hrests⟩ := SequenceRun.exists_rests (follows_init UbusCoverage.init) e
    (Exchanges.fed hp)
  have hstart : (Moment.start .init : Moment Op Res).Answered e :=
    ⟨Nat.lt_irrefl 0, rfl, rfl⟩
  have hans := Moment.answered_run hp hstart
  refine ⟨fun k => ⟨(htidy k).queue, ?_⟩, K, fun k hk => ?_⟩
  · intro hb
    have hexpects := (htidy k).expects
    rw [hb] at hexpects
    exact hexpects
  · obtain ⟨n, rfl⟩ := Nat.exists_eq_add_of_le hk
    have hrest := hrests n
    have hdone := hrest.completed
    refine ⟨hdone.ended, ?_, hdone.returned (.inl rfl), ?_⟩
    · rw [hdone.driven, hdone.account]
      rfl
    · rw [hrest.account, hrest.returned_eq hans.free]
      exact hans.taken

def FirstResponsesLeft (e : Platform) (client : Client Op Res) (n : Nat) (p : Prog Op Res α) : Prop :=
  let c := SequenceRun.run client e (.init UbusCoverage.init) p
  ∃ K, ∀ k, K ≤ k → (c k).blocked = .ended ∧ (c k).tb.returned.length = n ∧
    (c k).account.taken = [] ∧ (c k).account.queue = (c k).tb.returned.take responseDepth

end Responses

namespace MasterSeq

variable {r : Randomizer}

def collecting (n : Nat) : List (Seq Unit) :=
  [ubusMasterReadWordSeq n, ubusMasterWriteRandomSizeSeq n, ubusMasterReadRandomSizeSeq n,
    ubusTargetAddrDirSeq n, ubusTargetAddrDirSeq1 n, ubusTargetAddrDirSeq2 n,
    ubusTargetAddrDirSeq3 n, ubusTargetAddrDirSeq4 n, ubusTargetAddrDirSeq5 n,
    ubusTargetAddrDirSeq6 n, targetSeqs n, ubusMasterReadLowSeq n, ubusMasterReadMidSeq n,
    ubusMasterReadHighSeq n]

theorem paired_collecting (n : Nat) : ∀ p ∈ collecting n, Paired (client r) p := by
  have hregion (i : Fin 6) : Paired (client r) (targetRegion i n) := paired_targetRegion i.isLt n
  simp only [collecting, List.forall_mem_cons]
  refine ⟨paired_readWord n, paired_writeRandomSize n, paired_readRandomSize n,
    paired_targetAddrDir n, hregion 0, hregion 1, hregion 2, hregion 3, hregion 4, hregion 5,
    paired_targetSeqs n, ?_, ?_, ?_, nofun⟩
  · exact paired_readRange (satisfiable_readByte (a := 0x0000) (by decide)) n
  · exact paired_readRange (satisfiable_readByte (a := 0x4000) (by decide)) n
  · exact paired_readRange (satisfiable_readByte (a := 40960) (by decide)) n

def leaving (n : Nat) : List (Seq Unit) :=
  [ubusMasterWriteLowSeq n, ubusMasterWriteMidSeq n, ubusMasterWriteHighSeq n]

theorem leaving_spec (n : Nat) : ∀ p ∈ leaving n, ∃ c, Satisfiable c ∧
    p = (List.range n).forM fun _ => doWith c := by
  simp only [leaving, List.forall_mem_cons]
  exact ⟨⟨_, satisfiable_writeByte (a := 0x0000) (by decide), rfl⟩,
    ⟨_, satisfiable_writeByte (a := 0x4000) (by decide), rfl⟩,
    ⟨_, satisfiable_writeByte (a := 0x8000) (by decide), rfl⟩, nofun⟩

theorem run_leaving {c : Packet → Prop} (hc : Satisfiable c) {e : Platform} (n : Nat)
    {m : Moment Op Res} (hm : m.Unanswered e) (hitems : m.account.items = []) :
    let out := ((List.range n).forM fun _ => doWith c).run (handle r e) m
    out.2.Unanswered e ∧ out.2.account.items.length = n := by
  refine Prog.run_forM_range (P := fun i m => m.Unanswered e ∧ m.account.items.length = i)
    (handle r e) (f := fun _ => doWith c) ⟨hm, by rw [hitems]; rfl⟩ ?_
  rintro i _ m ⟨hun, hlen⟩
  have hstep : ((doWith c).run (handle r e) m).2.account.items =
      m.account.items ++ [r.item m.account.items.length hc] := items_doWith hc
  refine ⟨hun.sends (sends_doWith hc), ?_⟩
  rw [hstep, List.length_append, hlen]
  rfl

theorem firstResponsesLeft {c : Packet → Prop} (hc : Satisfiable c) (e : Platform) (n : Nat) :
    FirstResponsesLeft e (client r) n ((List.range n).forM fun _ => doWith c) := by
  have hstart : (Moment.start .init : Moment Op Res).Unanswered e := ⟨Nat.lt_irrefl 0, rfl, rfl⟩
  obtain ⟨hun, hlen⟩ := run_leaving (r := r) hc n hstart rfl
  have hfed : Fed (client r) ((List.range n).forM fun _ => doWith c) :=
    .forM fun _ _ => fed_doWith hc
  obtain ⟨K, -, -, -, hrests⟩ := SequenceRun.exists_rests (follows_init UbusCoverage.init) e hfed
  refine ⟨K, fun k hk => ?_⟩
  obtain ⟨j, rfl⟩ := Nat.exists_eq_add_of_le hk
  have hrest := hrests j
  have hdone := hrest.completed
  have hreturned := hrest.returned_eq hun.free
  refine ⟨hdone.ended, ?_, ?_, ?_⟩
  · have hheaders := congrArg List.length (hdone.returned (.inl rfl))
    rw [headers, itemHeaders, List.length_map, List.length_map, hdone.driven] at hheaders
    exact hheaders.trans hlen
  · rw [hrest.account]
    exact hun.taken
  · rw [hrest.account, hreturned]
    exact hun.queue

end MasterSeq

theorem responses_in_order (r : Randomizer) (solver : UbusTargetAddrDirSeqf.Solver) (e : Platform)
    (n : Nat) :
    (∀ p ∈ MasterSeq.collecting n, AnswersInOrder e (MasterSeq.client r) p) ∧
      AnswersInOrder e (UbusVirtualSequence.client solver) (UbusVirtualSequence.body n) ∧
      ∀ p ∈ MasterSeq.leaving n, FirstResponsesLeft e (MasterSeq.client r) n p := by
  refine ⟨fun p hp => Paired.answersInOrder (MasterSeq.paired_collecting n p hp) e,
    Paired.answersInOrder (UbusVirtualSequence.paired_body n) e, ?_⟩
  intro p hp
  obtain ⟨c, hc, rfl⟩ := MasterSeq.leaving_spec n p hp
  exact MasterSeq.firstResponsesLeft hc e n

end UbusVip
