import UbusVip.Guarantees.Capture
import UbusVip.Guarantees.Delivery

namespace UbusVip

def Env.readFresh : Env :=
  .scripted [(0, wordRead)] ⟨1, fun i => if i = 0 then ⟨0x11, by decide⟩ else ⟨0x12, by decide⟩⟩

namespace Transfer

variable {t : Transfer}

theorem handed_byte (hr : t.read = true) {i : Nat} (hi : i < t.size) :
    (t.handed t.size).byte i = t.rsp.byte (i - 1) := by
  have hlen : i < t.item.val.data.length := by
    rw [t.item.data_length]
    exact hi
  rw [handed, if_pos hr]
  exact ArrayFill.getD_fill_of_lt _ _ _ hi hlen

theorem handed_faithful_iff (hr : t.read = true) :
    (∀ i < t.size, (t.handed t.size).byte i = t.rsp.byte i) ↔
      ∀ i < t.size, t.rsp.byte i = t.rsp.byte 0 := by
  constructor
  · intro h i
    induction i with
    | zero => intro _; rfl
    | succ i ih =>
      intro hi
      have hprev := ih (by omega)
      rw [← h (i + 1) hi, handed_byte hr hi]
      exact hprev
  · intro h i hi
    rw [handed_byte hr hi, h i hi]
    exact h (i - 1) (by omega)

end Transfer

theorem returned_get {env : Env} {k j : Nat} {p : Packet}
    (hp : (Testbench.run env k).returned[j]? = some p) :
    ∃ t, (Timeline.run env k).opened[j]? = some t ∧ p = t.handed t.size := by
  rw [(run_follows env k).returned, List.getElem?_map, Option.map_eq_some_iff] at hp
  obtain ⟨t, ht, rfl⟩ := hp
  exact ⟨t, get_of_prefix (Timeline.run env k).finished_prefix_opened ht, rfl⟩

theorem read_back_iff {env : Env} {k j : Nat} {p : Packet}
    (hp : (Testbench.run env k).returned[j]? = some p) (hr : p.read = true) :
    ∃ tr rsp, (Testbench.run env k).driven[j]? = some tr ∧ p.header = tr.val.header ∧
      (Testbench.run env k).slave.responses[j]? = some rsp ∧
      ((∀ i < tr.val.size, p.byte i = rsp.byte i) ↔
        ∀ i < tr.val.size, rsp.byte i = rsp.byte 0) := by
  obtain ⟨t, hopen, rfl⟩ := returned_get hp
  obtain ⟨hdriven, hrsp, -⟩ := opened_get hopen
  have hread : t.read = true := by
    by_contra hw
    rw [t.handed_of_write (by simpa using hw)] at hr
    exact hw hr
  exact ⟨t.item, t.rsp, hdriven, t.handed_header t.size, hrsp, Transfer.handed_faithful_iff hread⟩

theorem read_back_iff_readFresh :
    ∃ tr rsp, (Testbench.run .readFresh 8).driven[0]? = some tr ∧
      ((Testbench.run .readFresh 8).returned.getD 0 .create).header = tr.val.header ∧
      (Testbench.run .readFresh 8).slave.responses[0]? = some rsp ∧
      ((∀ i < tr.val.size,
          ((Testbench.run .readFresh 8).returned.getD 0 .create).byte i = rsp.byte i) ↔
        ∀ i < tr.val.size, rsp.byte i = rsp.byte 0) :=
  read_back_iff (by decide) (by decide)

theorem readFresh_repeats :
    ∃ p rsp, (Testbench.run .readFresh 8).driven[0]? = some wordRead ∧
      (Testbench.run .readFresh 8).returned[0]? = some p ∧
      (Testbench.run .readFresh 8).slave.responses[0]? = some rsp ∧
      wordRead.val.read = true ∧ 1 < wordRead.val.size ∧ p.byte 1 ≠ rsp.byte 1 :=
  ⟨(Testbench.run .readFresh 8).returned.getD 0 .create,
    (Testbench.run .readFresh 8).slave.responses.getD 0 .create,
    by decide, by decide, by decide, by decide, by decide, by decide⟩

end UbusVip
