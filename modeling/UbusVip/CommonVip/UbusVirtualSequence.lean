import UbusVip.CommonVip.UbusTargetAddrDirSeqf

namespace UbusVip.UbusVirtualSequence

open Interaction (Prog)

inductive ClockOp where
  | posedges (n : Nat)
deriving DecidableEq, Repr

abbrev Op := UbusTargetAddrDirSeqf.Op ⊕ ClockOp

abbrev Res : Op → Type := Sum.elim UbusTargetAddrDirSeqf.Res fun _ => Unit

def posedges (n : Nat) : Prog Op Res Unit := Prog.perform (Sum.inr (.posedges n) : Op)

-- pre_body of cov_seq finds the collector that the environment has put into the config_db
def body (nRepeat : Nat) : Prog Op Res Unit := do
  (UbusTargetAddrDirSeqf.body nRepeat true).inl
  posedges 3

end UbusVip.UbusVirtualSequence
