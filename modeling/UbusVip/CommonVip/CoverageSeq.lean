import UbusVip.MasterVip.MasterSeq

namespace UbusVip.MasterSeq

open Interaction (Prog)

def targetRegion (i nRepeat : Nat) : Seq Unit := do
  (List.range nRepeat).forM fun _ => doWrite i
  (List.range nRepeat).forM fun _ => doRead i

def ubusTargetAddrDirSeq1 : Nat → Seq Unit := targetRegion 0

def ubusTargetAddrDirSeq2 : Nat → Seq Unit := targetRegion 1

def ubusTargetAddrDirSeq3 : Nat → Seq Unit := targetRegion 2

def ubusTargetAddrDirSeq4 : Nat → Seq Unit := targetRegion 3

def ubusTargetAddrDirSeq5 : Nat → Seq Unit := targetRegion 4

def ubusTargetAddrDirSeq6 : Nat → Seq Unit := targetRegion 5

def targetSeqs (nRepeat : Nat) : Seq Unit :=
  [ubusTargetAddrDirSeq1, ubusTargetAddrDirSeq2, ubusTargetAddrDirSeq3, ubusTargetAddrDirSeq4,
    ubusTargetAddrDirSeq5, ubusTargetAddrDirSeq6].forM fun seq => seq nRepeat

def inside (first last : Nat) (req : Packet) : Prop :=
  first ≤ req.addr.toNat ∧ req.addr.toNat ≤ last

instance (first last : Nat) (req : Packet) : Decidable (inside first last req) :=
  inferInstanceAs (Decidable (_ ∧ _))

-- the write sequences leave their responses in the queue
def writeRange (first last nRepeat : Nat) : Seq Unit :=
  (List.range nRepeat).forM fun _ => doWith fun req => inside first last req ∧ req.write = true

def ubusMasterWriteLowSeq : Nat → Seq Unit := writeRange 0x0000 0x3FFF

def ubusMasterWriteMidSeq : Nat → Seq Unit := writeRange 0x4000 0x7FFF

def ubusMasterWriteHighSeq : Nat → Seq Unit := writeRange 0x8000 0xFFFF

def readRange (constraint : Packet → Prop) (nRepeat : Nat) : Seq Unit :=
  (List.range nRepeat).forM fun _ => do
    doWith constraint
    let _ ← getResponse

def ubusMasterReadLowSeq : Nat → Seq Unit :=
  readRange fun req => inside 0x0000 0x3FFF req ∧ req.read = true

def ubusMasterReadMidSeq : Nat → Seq Unit :=
  readRange fun req => req.read = true ∧ req.size ∈ [1, 2, 4, 8] ∧ inside 0x4000 0x7FFF req

def ubusMasterReadHighSeq : Nat → Seq Unit :=
  readRange fun req => req.read = true ∧ req.size ∈ [1, 2, 4, 8] ∧ inside 40960 65535 req

end UbusVip.MasterSeq
