import UbusVip.CommonVip.UbusCoverage
import UbusVip.CommonVip.UbusVirtualSequence
import UbusVip.Sequencer

namespace UbusVip

namespace UbusTargetAddrDirSeqf

def Solution.item {c : Inline} (sol : Solution c) : Item := ⟨sol.packet, sol.legal⟩

def client (solver : Solver) : Client Op Res
  | desk, .isCovered a d s => .now (UbusCoverage.isCovered desk.covered a d s)
  | desk, .doWith c => .send (solver desk.sent c).item ()
  | _, .getResponse => .take id
  | _, .warning _ => .now ()

def missedBin : (op : Op) → Res op → Option Bin
  | .isCovered a d s, covered => bif covered then none else some ⟨a, d, s⟩
  | _, _ => none

variable (solver : Solver) (e : Platform) (k : Nat) (c : SequenceRun Op Res Unit)

def missed : List Bin :=
  ((c.step (client solver) e k).account.log.drop c.account.log.length).filterMap fun asked =>
    missedBin asked.1 asked.2

end UbusTargetAddrDirSeqf

def UbusVirtualSequence.client (solver : UbusTargetAddrDirSeqf.Solver) :
    Client UbusVirtualSequence.Op UbusVirtualSequence.Res
  | desk, .inl op => UbusTargetAddrDirSeqf.client solver desk op
  | _, .inr (.posedges n) => .edges n ()

end UbusVip
