import UbusVip.Refinement.Relation

namespace UbusVip

open FourState

variable {b : Bus}

structure Released (t : Transfer) (b : Bus) : Prop where
  read : b.ubusRead = .z
  write : b.ubusWrite = .z
  masterData : b.masterData = if t.read then .z else .known (t.byte 0)
  data : t.read = false → b.ubusData = .known (t.byte 0)
  slaveData : t.read = false → b.slaveData = .z

theorem Carrying.masterData_of_read {t : Transfer} {i : Nat} {w : Logic} (h : Carrying t i w b)
    (hr : t.read = true) : b.masterData = .z := by simpa only [hr, if_true] using h.masterData

theorem Carrying.slaveData_of_write {t : Transfer} {i : Nat} {w : Logic} (h : Carrying t i w b)
    (hr : t.read = false) : b.slaveData = .z := by
  simpa only [hr, Bool.false_eq_true, if_false] using h.slaveData

theorem Carrying.of_read {t : Transfer} {i : Nat} {w : Logic} (hr : t.read = true)
    (hread : b.ubusRead = .z) (hwrite : b.ubusWrite = .z) (hwait : b.ubusWait = w)
    (hdata : b.ubusData = .known (t.byte i)) (hm : b.masterData = .z)
    (hs : b.slaveData = .known (t.byte i)) : Carrying t i w b :=
  ⟨hread, hwrite, hwait, hdata, by simpa only [hr, if_true] using hm,
    by simpa only [hr, if_true] using hs⟩

theorem Carrying.of_write {t : Transfer} {i : Nat} {w : Logic} (hr : t.read = false)
    (hread : b.ubusRead = .z) (hwrite : b.ubusWrite = .z) (hwait : b.ubusWait = w)
    (hdata : b.ubusData = .known (t.byte i)) (hm : b.masterData = .known (t.byte i))
    (hs : b.slaveData = .z) : Carrying t i w b :=
  ⟨hread, hwrite, hwait, hdata, by simpa only [hr, Bool.false_eq_true, if_false] using hm,
    by simpa only [hr, Bool.false_eq_true, if_false] using hs⟩

theorem Carrying.released {t : Transfer} {w : Logic} (h : Carrying t 0 w b) : Released t b where
  read := h.read
  write := h.write
  masterData := h.masterData
  data _ := h.data
  slaveData hr := h.slaveData_of_write hr

theorem Carrying.setBip {t : Transfer} {i : Nat} {w : Logic} (h : Carrying t i w b) (l : Logic) :
    Carrying t i w { b with ubusBip := l } := ⟨h.read, h.write, h.wait, h.data, h.masterData, h.slaveData⟩

section Master

theorem master_edge_command (tr : Item) {started : Bool} (h : Quiet started b) :
    let act := MasterDriver.edge b (.command tr.val)
    act.loc = .address tr.val ∧ act.itemDone = none ∧ Commanded started tr (act.nba b) := by
  have hw := tr.write_eq
  cases hr : tr.val.read with
  | true =>
    have hact : MasterDriver.edge b (.command tr.val) =
        ⟨.address tr.val, Bus.driveMasterData .z ∘ MasterDriver.driveCommand tr.val, none⟩ := by
      simp [MasterDriver.edge, MasterDriver.command, hr, hw]
    rw [hact]
    exact ⟨rfl, rfl, rfl, rfl, rfl, rfl, h.wait, rfl, h.slaveData⟩
  | false =>
    have hact : MasterDriver.edge b (.command tr.val) =
        ⟨.address tr.val, MasterDriver.driveCommand tr.val, none⟩ := by
      simp [MasterDriver.edge, MasterDriver.command, hr, hw]
    rw [hact]
    exact ⟨rfl, rfl, rfl, rfl, rfl, rfl, h.wait, h.masterData, h.slaveData⟩

theorem master_edge_address {started : Bool} (t : Transfer) (h : Commanded started t.item b) :
    let act := MasterDriver.edge b (.address t.item.val)
    act.loc = .waitLow t.item.val ∧ act.itemDone = none ∧ Released t (act.nba b) := by
  have hlow : MasterDriver.waitLow t.item.val b = ⟨.waitLow t.item.val, id, none⟩ := by
    rw [MasterDriver.waitLow, if_neg h.wait_ne]
  simp only [MasterDriver.edge, MasterDriver.address, hlow, Function.id_comp]
  refine ⟨trivial, trivial, ?_⟩
  cases hr : t.read with
  | true =>
    rw [if_neg (by simp [hr])]
    exact ⟨rfl, rfl, by rw [hr]; exact h.masterData, by simp [hr], by simp [hr]⟩
  | false =>
    rw [if_pos (by simp [hr]), t.byte_of_write hr]
    exact ⟨rfl, rfl, by rw [hr]; rfl, fun _ => rfl, fun _ => h.slaveData⟩

theorem writeBeats_more {t : Transfer} (hr : t.read = false) {i j : Nat} (hi : i < t.size)
    (h : Carrying t j .zero b) :
    let act := MasterDriver.writeBeats t.item.val i
    act.loc = .beat t.item.val i ∧ act.itemDone = none ∧ Carrying t i .zero (act.nba b) ∧
      (act.nba b).ubusBip = lastBip t i := by
  simp only [MasterDriver.writeBeats, Transfer.item_size, if_pos hi, t.byte_of_write hr]
  exact ⟨trivial, trivial, .of_write hr rfl rfl h.wait rfl rfl (h.slaveData_of_write hr), rfl⟩

theorem readBeats_more {t : Transfer} (hr : t.read = true) {i : Nat} (hi : i < t.size)
    (hv : b.ubusData.toBits = t.byte (i - 1)) :
    let act := MasterDriver.readBeats (t.handed i) i b
    act.loc = .beat (t.handed (i + 1)) i ∧ act.itemDone = none ∧
      act.nba = fun b => { b with ubusBip := lastBip t i } := by
  have hsize : i < (t.handed i).size := by rw [t.handed_size]; exact hi
  simp only [MasterDriver.readBeats, if_pos hsize]
  refine ⟨congrArg (MasterDriver.Loc.beat · i) (t.handed_set hr i hv), trivial, ?_⟩
  rw [t.handed_size]
  rfl

theorem master_settle (t : Transfer) (h : Carrying t 0 .zero b) :
    let act := MasterDriver.settle b (.waitLow t.item.val)
    act.loc = .beat (t.handed 1) 0 ∧ act.itemDone = none ∧ Carrying t 0 .zero (act.nba b) ∧
      (act.nba b).ubusBip = lastBip t 0 := by
  have hlow : MasterDriver.settle b (.waitLow t.item.val) = MasterDriver.beats t.item.val 0 b := by
    rw [MasterDriver.settle, MasterDriver.waitLow, if_pos h.wait]
  rw [hlow, MasterDriver.beats]
  cases hr : t.read with
  | true =>
    have hd : b.ubusData.toBits = t.byte (0 - 1) := by rw [h.data, LogicVec.toBits_known]
    obtain ⟨hloc, hdone, hnba⟩ := readBeats_more hr t.size_pos hd
    rw [if_neg (by simp [hr]), ← t.handed_zero]
    exact ⟨hloc, hdone, by rw [hnba]; exact ⟨h.setBip _, rfl⟩⟩
  | false =>
    rw [if_pos (by simp [hr]), t.handed_of_write hr]
    exact writeBeats_more hr t.size_pos h

theorem master_edge_beat (t : Transfer) {i : Nat} (hi : i + 1 < t.size) (h : Carrying t i .zero b) :
    let act := MasterDriver.edge b (.beat (t.handed (i + 1)) i)
    act.loc = .beat (t.handed (i + 2)) (i + 1) ∧ act.itemDone = none ∧
      (act.nba b).ubusBip = lastBip t (i + 1) ∧
      if t.read then Carrying t i .zero (act.nba b) else Carrying t (i + 1) .zero (act.nba b) := by
  rw [MasterDriver.edge, MasterDriver.beats, t.handed_write]
  cases hr : t.read with
  | true =>
    have hd : b.ubusData.toBits = t.byte (i + 1 - 1) := by
      rw [h.data, LogicVec.toBits_known, Nat.add_sub_cancel]
    obtain ⟨hloc, hdone, hnba⟩ := readBeats_more hr hi hd
    refine ⟨hloc, hdone, ?_⟩
    change (MasterDriver.Act.nba _ b).ubusBip = _ ∧ Carrying t i .zero (MasterDriver.Act.nba _ b)
    rw [if_neg (by decide), hnba]
    exact ⟨rfl, h.setBip _⟩
  | false =>
    rw [t.handed_of_write hr, t.handed_of_write hr]
    obtain ⟨hloc, hdone, hcar, hbip⟩ := writeBeats_more hr hi h
    exact ⟨hloc, hdone, hbip, hcar⟩

theorem master_last_read {t : Transfer} (hr : t.read = true) :
    let act := MasterDriver.edge b (.beat (t.handed t.size) (t.size - 1))
    act.loc = .getNextItem ∧ act.itemDone = some (t.handed t.size) ∧ act.nba = id := by
  have hn : ¬t.size - 1 + 1 < (t.handed t.size).size := by rw [t.handed_size]; omega
  rw [MasterDriver.edge, MasterDriver.beats, if_neg (by simp [t.handed_write, hr]),
    MasterDriver.readBeats, if_neg hn]
  exact ⟨rfl, rfl, rfl⟩

theorem master_last_write {t : Transfer} (hr : t.read = false) {i : Nat}
    (h : Carrying t i .zero b) :
    let act := MasterDriver.edge b (.beat (t.handed t.size) (t.size - 1))
    act.loc = .tail t.item.val ∧ act.itemDone = none ∧ (act.nba b).ubusRead = .z ∧
      (act.nba b).ubusWrite = .z ∧ (act.nba b).ubusData = .z ∧ (act.nba b).masterData = .z ∧
      (act.nba b).slaveData = .z := by
  have hn : ¬t.size - 1 + 1 < t.item.val.size := by rw [t.item_size]; omega
  rw [t.handed_of_write hr, MasterDriver.edge, MasterDriver.beats, if_pos (by simp [hr]),
    MasterDriver.writeBeats, if_neg hn]
  exact ⟨rfl, rfl, rfl, rfl, rfl, rfl, h.slaveData_of_write hr⟩

end Master

section Slave

variable {t : Transfer}

def answer (t : Transfer) (i : Nat) : SlaveDriver.Loc :=
  if i < t.waits then .waitEdge t.rsp i else .dataEdge t.rsp 0

def answerWait (t : Transfer) (i : Nat) : Logic := if i < t.waits then .one else .zero

theorem slave_drive (i : Nat) (h : Released t b) :
    let act := SlaveDriver.drive t.rsp i
    act.loc = answer t i ∧ act.itemDone = false ∧ Carrying t 0 (answerWait t i) (act.nba b) := by
  have hpos : 0 < t.rsp.size := by rw [t.rsp_size_eq]; exact t.size_pos
  cases hr : t.read with
  | true =>
    rw [SlaveDriver.drive, if_pos (by simp [hr]), SlaveDriver.driveReadResponse, t.rsp_waits]
    have hbyte : LogicVec.known (t.rsp.byte 0) = .known (t.byte 0) := by rw [t.byte_of_read hr]
    have hm : b.masterData = .z := by simpa only [hr, if_true] using h.masterData
    by_cases hi : i < t.waits
    · simp only [answer, answerWait, if_pos hi]
      exact ⟨trivial, trivial, .of_read hr h.read h.write rfl hbyte hm hbyte⟩
    · simp only [answer, answerWait, if_neg hi, SlaveDriver.readBeats, if_pos hpos]
      exact ⟨trivial, trivial, .of_read hr h.read h.write rfl hbyte hm hbyte⟩
  | false =>
    rw [SlaveDriver.drive, if_neg (by simp [hr]), if_pos (by simp [hr]),
      SlaveDriver.driveWriteResponse, t.rsp_waits]
    have hd := h.data hr
    have hm : b.masterData = .known (t.byte 0) := by
      simpa only [hr, Bool.false_eq_true, if_false] using h.masterData
    by_cases hi : i < t.waits
    · simp only [answer, answerWait, if_pos hi]
      exact ⟨trivial, trivial, .of_write hr h.read h.write rfl hd hm (h.slaveData hr)⟩
    · simp only [answer, answerWait, if_neg hi, SlaveDriver.writeBeats, if_pos hpos]
      exact ⟨trivial, trivial, .of_write hr h.read h.write rfl hd hm (h.slaveData hr)⟩

theorem slave_edge_beat {i : Nat} (hi : i + 1 < t.size)
    (h : if t.read then Carrying t i .zero b else Carrying t (i + 1) .zero b) :
    let act := SlaveDriver.edge (.dataEdge t.rsp i)
    act.loc = .dataEdge t.rsp (i + 1) ∧ act.itemDone = false ∧
      Carrying t (i + 1) .zero (act.nba b) ∧ (act.nba b).ubusBip = b.ubusBip := by
  have hsize : i + 1 < t.rsp.size := by rw [t.rsp_size_eq]; exact hi
  cases hr : t.read with
  | true =>
    rw [hr, if_pos rfl] at h
    have hm := h.masterData_of_read hr
    rw [SlaveDriver.edge, if_pos (by simp [hr]), SlaveDriver.readBeats, if_pos hsize,
      t.byte_of_read hr]
    exact ⟨rfl, rfl, .of_read hr h.read h.write rfl rfl hm rfl, rfl⟩
  | false =>
    rw [hr, if_neg Bool.false_ne_true] at h
    rw [SlaveDriver.edge, if_neg (by simp [hr]), SlaveDriver.writeBeats, if_pos hsize]
    exact ⟨rfl, rfl, h, rfl⟩

theorem slave_last_read (hr : t.read = true) {i : Nat} (h : Carrying t i .zero b) :
    let act := SlaveDriver.edge (.dataEdge t.rsp (t.size - 1))
    act.loc = .tailEdge t.rsp ∧ act.itemDone = false ∧ Quiet true (act.nba b) ∧
      (act.nba b).ubusData = .z := by
  have hn : ¬t.size - 1 + 1 < t.rsp.size := by rw [t.rsp_size_eq]; omega
  rw [SlaveDriver.edge, if_pos (by simp [hr]), SlaveDriver.readBeats, if_neg hn]
  refine ⟨rfl, rfl, ⟨?_, ?_, rfl, h.masterData_of_read hr, rfl⟩, rfl⟩
  · change b.ubusRead ≠ .one
    rw [h.read]; decide
  · change b.ubusWrite ≠ .one
    rw [h.write]; decide

theorem slave_last_write (hr : t.read = false) :
    SlaveDriver.edge (.dataEdge t.rsp (t.size - 1)) =
      ⟨.getNextItem, SlaveDriver.driveWait .one, true⟩ := by
  have hn : ¬t.size - 1 + 1 < t.rsp.size := by rw [t.rsp_size_eq]; omega
  rw [SlaveDriver.edge, if_neg (by simp [hr]), SlaveDriver.writeBeats, if_neg hn]

end Slave

end UbusVip
