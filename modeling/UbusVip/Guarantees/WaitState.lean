import UbusVip.Guarantees.Capture

namespace UbusVip

namespace Transfer

theorem report_waits (first : Bool) (t : Transfer) :
    (t.report first).waitState = if first then 0 else t.waits + 1 := rfl

theorem report_waits_iff (first : Bool) (t : Transfer) :
    (t.report first).waitState = t.waits ↔ first = true ∧ t.waits = 0 := by
  rw [report_waits]
  cases first with
  | true => simp [eq_comm]
  | false => simp

end Transfer

theorem opened_waits {env : Env} {k j : Nat} {t : Transfer}
    (h : (Timeline.run env k).opened[j]? = some t) : t.waits = (env.draw j).waitState := by
  rw [opened_after h]
  exact Transfer.serve_waits _ _ _

theorem wait_state_iff {env : Env} {k j : Nat} {p : Packet}
    (hp : (Testbench.run env k).masterCollected[j]? = some p ∨
      (Testbench.run env k).slaveCollected[j]? = some p) :
    ∃ rsp, (Testbench.run env k).slave.responses[j]? = some rsp ∧
      rsp.waitState = (env.draw j).waitState ∧
      (p.waitState = rsp.waitState ↔ j = 0 ∧ (env.draw j).waitState = 0) := by
  obtain ⟨t, hopen, rfl⟩ := collected_get hp
  have hw := opened_waits hopen
  refine ⟨t.rsp, (opened_get hopen).2.1, hw, ?_⟩
  rw [t.rsp_waits, t.report_waits_iff, hw, decide_eq_true_iff]

theorem wait_state_iff_writeThenRead :
    ∃ rsp, (Testbench.run .writeThenRead 16).slave.responses[1]? = some rsp ∧
      rsp.waitState = (Env.writeThenRead.draw 1).waitState ∧
      (((Testbench.run .writeThenRead 16).slaveCollected.getD 1 .create).waitState =
          rsp.waitState ↔
        1 = 0 ∧ (Env.writeThenRead.draw 1).waitState = 0) :=
  wait_state_iff (.inr (by decide))

theorem writeThenRead_miscounts :
    ∃ p q, (Testbench.run .writeThenRead 16).masterCollected = [p, q] ∧
      (Testbench.run .writeThenRead 16).slaveCollected = [p, q] ∧
      (Testbench.run .writeThenRead 16).slave.responses.map (·.waitState) = [1, 1] ∧
      p.waitState = 0 ∧ q.waitState = 2 :=
  ⟨(Testbench.run .writeThenRead 16).masterCollected.getD 0 .create,
    (Testbench.run .writeThenRead 16).masterCollected.getD 1 .create,
    by decide, by decide, by decide, by decide, by decide⟩

end UbusVip
