import UbusVip.Guarantees.Delivery
import UbusVip.Guarantees.WaitState

namespace UbusVip

def transferEdges (p : Packet) (w : Nat) : Nat := p.size + w + if p.write then 3 else 2

theorem starts_phase {env : Env} {k : Nat} {p : Packet}
    (h : (Testbench.run env k).masterDriver = .command p) :
    ∃ late tr, (Timeline.run env k).phase = .command late tr ∧ p = tr.val := by
  have hm := (run_follows env k).master.symm.trans h
  generalize Timeline.run env k = tl at hm ⊢
  obtain ⟨past, phase, mem⟩ := tl
  cases phase with
  | command late tr =>
    injection hm with hp
    exact ⟨late, tr, rfl, hp.symm⟩
  | idle late | address tr | wait t i | beat t i | tail t hr => cases hm

theorem starts_busy {env : Env} {k : Nat} {p : Packet}
    (h : (Testbench.run env k).masterDriver = .command p) :
    (Timeline.run env k).busy env.draw =
      transferEdges p (env.draw (Testbench.run env k).slave.responses.length).waitState := by
  obtain ⟨late, tr, hphase, rfl⟩ := starts_phase h
  have hlen : (Testbench.run env k).slave.responses.length =
      ((Timeline.run env k).past ++ late.toList).length := by
    rw [(run_follows env k).served.responses, List.length_map]
    simp only [Timeline.view, Timeline.opened, hphase]
  have hdir := tr.write_eq
  rw [Timeline.busy, hphase, hlen, transferEdges]
  cases hr : tr.val.read with
  | true =>
    simp only [Transfer.tailSpan, hdir, hr, if_true, Bool.not_true, Bool.false_eq_true, if_false]
    omega
  | false =>
    simp only [Transfer.tailSpan, hdir, hr, Bool.not_false, if_true, Bool.false_eq_true, if_false]
    omega

theorem starts_finished {env : Env} {k : Nat} {p : Packet}
    (h : (Testbench.run env k).masterDriver = .command p) :
    (Timeline.run env k).finished = (Timeline.run env k).opened ∧
      itemHeaders (Timeline.run env k).items =
        itemHeaders ((Timeline.run env k).finished.map (·.item)) ++ [p.header] := by
  obtain ⟨late, tr, hphase, rfl⟩ := starts_phase h
  simp [Timeline.items, Timeline.pending, Timeline.finished, Timeline.opened, hphase, itemHeaders]

theorem returned_of_finished {env : Env} {i j : Nat}
    (h : (Timeline.run env j).finished = (Timeline.run env i).finished) :
    (Testbench.run env j).returned = (Testbench.run env i).returned := by
  rw [(run_follows env j).returned, (run_follows env i).returned]
  exact congrArg _ h

theorem transfer_returns {env : Env} {k : Nat} {p : Packet}
    (h : (Testbench.run env k).masterDriver = .command p) :
    let s := Testbench.run env k
    let n := transferEdges p (env.draw s.slave.responses.length).waitState
    (∀ j < n, (Testbench.run env (k + j)).returned = s.returned) ∧
      ∃ q rsp, (Testbench.run env (k + n)).returned = s.returned ++ [q] ∧ q.header = p.header ∧
        (Testbench.run env (k + n)).slave.responses[s.slave.responses.length]? = some rsp ∧
        rsp.waitState = (env.draw s.slave.responses.length).waitState := by
  intro s n
  have hbusy : (Timeline.run env k).busy env.draw = n := starts_busy h
  obtain ⟨hopen, hitems⟩ := starts_finished h
  refine ⟨fun j hj => returned_of_finished (Timeline.run_busy (hbusy ▸ hj)).2, ?_⟩
  have hfin := Timeline.finished_at env k
  rw [hbusy] at hfin
  obtain ⟨ps, hps⟩ := (Testbench.run_grows env (Nat.le_add_right k n)).returned
  have hheads : headers s.returned ++ headers ps = headers s.returned ++ [p.header] := by
    have hlast : headers (Testbench.run env (k + n)).returned =
        itemHeaders (Timeline.run env k).items := by
      rw [(run_follows env (k + n)).returned, handed_headers, ← hfin]
      rfl
    have hnow : headers s.returned = itemHeaders ((Timeline.run env k).finished.map (·.item)) := by
      rw [(run_follows env k).returned, handed_headers]
      rfl
    rw [← hnow] at hitems
    rw [← hitems, ← hlast, ← hps]
    exact List.map_append.symm
  obtain ⟨q, rfl, hq⟩ := List.map_eq_singleton_iff.mp (List.append_cancel_left hheads)
  have hcount : s.slave.responses.length < (Timeline.run env (k + n)).opened.length := by
    have hlen : s.slave.responses.length = s.returned.length := by
      rw [(run_follows env k).served.responses, (run_follows env k).returned, List.length_map,
        List.length_map]
      exact (congrArg List.length hopen).symm
    have hreturned := congrArg List.length hps
    rw [(run_follows env (k + n)).returned, List.length_map, List.length_append,
      List.length_singleton, ← hlen] at hreturned
    have hprefix := (Timeline.run env (k + n)).finished_prefix_opened.length_le
    simp only [Timeline.view] at hreturned
    omega
  have hget := List.getElem?_eq_getElem hcount
  exact ⟨q, _, hps.symm, hq, (opened_get hget).2.1, opened_waits hget⟩

theorem transfer_returns_writeThenRead :
    let s := Testbench.run .writeThenRead 9
    let n := transferEdges wordRead (Env.writeThenRead.draw s.slave.responses.length).waitState
    (∀ j < n, (Testbench.run .writeThenRead (9 + j)).returned = s.returned) ∧
      ∃ q rsp, (Testbench.run .writeThenRead (9 + n)).returned = s.returned ++ [q] ∧
        q.header = wordRead.val.header ∧
        (Testbench.run .writeThenRead (9 + n)).slave.responses[s.slave.responses.length]? =
          some rsp ∧
        rsp.waitState = (Env.writeThenRead.draw s.slave.responses.length).waitState :=
  transfer_returns (by decide)

end UbusVip
