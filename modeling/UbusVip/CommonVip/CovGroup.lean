import UbusVip.CommonVip.CovTrans
import UbusVip.Library.FunctionalCoverage

namespace UbusVip.CovTrans

open FunctionalCoverage

def TransAddr.all : List TransAddr :=
  [.configRegs, .internalSramLow, .internalSramHigh, .peripheralRegs, .externalCodeFlash,
    .externalDataDdr]

def TransDir.all : List TransDir := [.read, .write]

def TransSize.all : List TransSize := (List.finRange 4).map .sizes

inductive TransWaitState where
  | noWait
  | withWait1
  | withWait2
  | withWait3
deriving DecidableEq, Repr

def TransWaitState.value : TransWaitState → Nat
  | noWait => 0
  | withWait1 => 1
  | withWait2 => 2
  | withWait3 => 3

def TransWaitState.all : List TransWaitState := [.noWait, .withWait1, .withWait2, .withWait3]

def CrossBin.all : List CrossBin :=
  TransAddr.all.flatMap fun a => TransDir.all.flatMap fun d => TransSize.all.map fun s => ⟨a, d, s⟩

def transAddr : CoverItem Packet :=
  ⟨TransAddr.all.map fun b trans => decide (b.values.Contains trans.addr.toNat)⟩

def transDir : CoverItem Packet := ⟨TransDir.all.map fun b trans => trans.read == b.value⟩

def transSize : CoverItem Packet := ⟨TransSize.all.map fun b trans => trans.size == b.value⟩

def transAddrDirXSize : CoverItem Packet :=
  ⟨(CrossBin.all.filter fun b => ¬b.IgnSize8Addr).map fun b trans => decide (b.Hit trans)⟩

def transWaitState : CoverItem Packet :=
  ⟨TransWaitState.all.map fun b trans => trans.waitState == b.value⟩

def covTrans : List (CoverItem Packet) :=
  [transAddr, transDir, transSize, transAddrDirXSize, transWaitState]

example : transAddrDirXSize.bins.length = 46 := by decide

-- one list of samples for each instance of the covergroup; type_option.merge_instances is off
-- unless a tool sets it
def getCoverage (mergeInstances : Bool) (instances : List (List Packet)) : ℚ :=
  if mergeInstances then percent covTrans instances.flatten
  else average (instances.map (percent covTrans))

theorem covTrans_bins : ∀ item ∈ covTrans, item.bins ≠ [] := by
  have hpos : ∀ item ∈ covTrans, 0 < item.bins.length := by decide
  exact fun item hitem => List.ne_nil_of_length_pos (hpos item hitem)

theorem CrossBin.mem_all (b : CrossBin) : b ∈ all := by
  obtain ⟨addr, dir, ⟨s⟩⟩ := b
  revert s
  cases addr <;> cases dir <;> decide

theorem covTrans_hit_iff (samples : List Packet) :
    (∀ item ∈ covTrans, ∀ b ∈ item.bins, ∃ trans ∈ samples, b trans = true) ↔
      (∀ b : CrossBin, ¬b.IgnSize8Addr → ∃ trans ∈ samples, b.Hit trans) ∧
        ∀ w : TransWaitState, ∃ trans ∈ samples, trans.waitState = w.value := by
  have hcross : (∀ b ∈ transAddrDirXSize.bins, ∃ trans ∈ samples, b trans = true) ↔
      ∀ b : CrossBin, ¬b.IgnSize8Addr → ∃ trans ∈ samples, b.Hit trans := by
    simp [transAddrDirXSize, CrossBin.mem_all]
  have hwait : (∀ b ∈ transWaitState.bins, ∃ trans ∈ samples, b trans = true) ↔
      ∀ w : TransWaitState, ∃ trans ∈ samples, trans.waitState = w.value := by
    have hall (w : TransWaitState) : w ∈ TransWaitState.all := by cases w <;> decide
    simp [transWaitState, hall]
  simp only [covTrans, List.forall_mem_cons, List.not_mem_nil, false_implies, implies_true, and_true,
    hcross, hwait]
  constructor
  · rintro ⟨-, -, -, hall⟩
    exact hall
  · rintro ⟨hall, hwaits⟩
    refine ⟨?_, ?_, ?_, hall, hwaits⟩
    · simp only [transAddr, List.forall_mem_map]
      intro a _
      obtain ⟨trans, htrans, hit⟩ := hall ⟨a, .read, .sizes 0⟩ (by cases a <;> decide)
      exact ⟨trans, htrans, decide_eq_true hit.1⟩
    · simp only [transDir, List.forall_mem_map]
      intro d _
      obtain ⟨trans, htrans, hit⟩ := hall ⟨.configRegs, d, .sizes 0⟩ (by cases d <;> decide)
      exact ⟨trans, htrans, beq_iff_eq.mpr hit.2.1⟩
    · simp only [transSize, List.forall_mem_map]
      intro s _
      obtain ⟨v⟩ := s
      obtain ⟨trans, htrans, hit⟩ := hall ⟨.configRegs, .read, .sizes v⟩ (by revert v; decide)
      exact ⟨trans, htrans, beq_iff_eq.mpr hit.2.2⟩

end UbusVip.CovTrans

namespace UbusVip.UbusCoverage

inductive Report where
  | incomplete (percent : ℚ)
  | success
deriving DecidableEq

def reportPhase (mergeInstances : Bool) (instances : List (List Packet)) : Report :=
  if CovTrans.getCoverage mergeInstances instances < 100 then
    .incomplete (CovTrans.getCoverage mergeInstances instances)
  else .success

theorem reportPhase_success_iff {mergeInstances : Bool} {instances : List (List Packet)} :
    reportPhase mergeInstances instances = .success ↔
      ¬CovTrans.getCoverage mergeInstances instances < 100 := by
  rw [reportPhase]
  split
  · exact iff_of_false nofun (not_not_intro (by assumption))
  · exact iff_of_true rfl (by assumption)

theorem reportPhase_averaged {instances : List (List Packet)} (h : [] ∈ instances) :
    reportPhase false instances ≠ .success := by
  rw [ne_eq, reportPhase_success_iff, not_not]
  exact FunctionalCoverage.average_lt_of_unsampled h CovTrans.covTrans_bins (by simp [CovTrans.covTrans])

theorem reportPhase_merged (samples : List Packet) :
    reportPhase true [samples, []] = .success ↔
      (∀ b : CovTrans.CrossBin, ¬b.IgnSize8Addr → ∃ trans ∈ samples, b.Hit trans) ∧
        ∀ w : CovTrans.TransWaitState, ∃ trans ∈ samples, trans.waitState = w.value := by
  have hne : CovTrans.covTrans ≠ [] := by simp [CovTrans.covTrans]
  have hmerged : CovTrans.getCoverage true [samples, []] =
      FunctionalCoverage.percent CovTrans.covTrans samples := by
    simp [CovTrans.getCoverage]
  have hle : FunctionalCoverage.percent CovTrans.covTrans samples ≤ 100 :=
    FunctionalCoverage.percent_le CovTrans.covTrans_bins hne
  rw [reportPhase_success_iff, hmerged, not_lt, ← CovTrans.covTrans_hit_iff,
    ← FunctionalCoverage.percent_eq_iff CovTrans.covTrans_bins hne]
  exact ⟨fun h => le_antisymm hle h, fun h => h.ge⟩

end UbusVip.UbusCoverage
