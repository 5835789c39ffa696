import UbusVip.CommonVip.UbusTargetAddrDirSeqf

namespace UbusVip.MasterSeq

open Interaction (Prog)
open UbusTargetAddrDirSeqf (AddrMap)

-- doWith: uvm_do_with, whose randomize meets packet's constraints and the inline ones
inductive Op where
  | doWith (inlineConstraint : Packet → Prop)
  | randomize
  | finishItem (req : Packet)
  | getResponse
  | edges (n : Nat)

def Res : Op → Type
  | .doWith _ => Unit
  | .randomize => Packet
  | .finishItem _ => Unit
  | .getResponse => Packet
  | .edges _ => Unit

abbrev Seq := Prog Op Res

def doWith (inlineConstraint : Packet → Prop) : Seq Unit := Prog.perform (Op.doWith inlineConstraint)

def randomize : Seq Packet := Prog.perform Op.randomize

def finishItem (req : Packet) : Seq Unit := Prog.perform (Op.finishItem req)

def getResponse : Seq Packet := Prog.perform Op.getResponse

def edges (n : Nat) : Seq Unit := Prog.perform (Op.edges n)

def ubusMasterWriteWordSeq (nRepeat : Nat) : Seq Unit := do
  (List.range nRepeat).forM fun i =>
    doWith fun req => req.addr.toNat = 4 * i ∧ req.read = false ∧ req.write = true ∧
      req.size = 4 ∧ req.data.length = 4
  edges 10

def readWord (i : Nat) : Packet :=
  { Packet.create with
    addr := .ofNat 16 (4 * i)
    size := 4
    write := false
    read := true
    data := List.replicate 4 0
    error := false }

def ubusMasterReadWordSeq (nRepeat : Nat) : Seq Unit :=
  (List.range nRepeat).forM fun i => do
    finishItem (readWord i)
    let _ ← getResponse
    edges (2 + (readWord i).size)

def ubusMasterWriteRandomSizeSeq (nRepeat : Nat) : Seq Unit :=
  (List.range nRepeat).forM fun _ => do
    doWith fun req => req.read = false ∧ req.write = true
    let _ ← getResponse

def readOf (req : Packet) : Packet :=
  { req with write := false, read := true, data := List.replicate req.size 0 }

def ubusMasterReadRandomSizeSeq (nRepeat : Nat) : Seq Unit :=
  (List.range nRepeat).forM fun _ => do
    let req ← randomize
    finishItem (readOf req)
    let _ ← getResponse
    edges (2 + (readOf req).size)

def addrMaps : List AddrMap :=
  [⟨0, 4095⟩, ⟨4096, 10239⟩, ⟨10240, 16383⟩, ⟨16384, 20479⟩, ⟨20480, 40959⟩, ⟨40960, 65535⟩]

def inRegion (i : Nat) (read : Bool) (req : Packet) : Prop :=
  let region := addrMaps.getD i ⟨0, 0⟩
  (region.startAddr ≤ req.addr.toNat ∧ req.addr.toNat ≤ region.endAddr) ∧
    req.read = read ∧ req.write = !read ∧ req.size ∈ if i ≠ 3 then [1, 2, 4, 8] else [1, 2, 4]

def transact (i : Nat) (read : Bool) : Seq Unit := do
  doWith (inRegion i read)
  let _ ← getResponse

def doWrite (i : Nat) : Seq Unit := transact i false

def doRead (i : Nat) : Seq Unit := transact i true

def ubusTargetAddrDirSeq (nRepeat : Nat) : Seq Unit := do
  (List.range nRepeat).forM fun _ => [0, 1, 2, 4, 5].forM doWrite
  (List.range nRepeat).forM fun _ => doWrite 3
  (List.range nRepeat).forM fun _ => [0, 1, 2, 4, 5].forM doRead
  (List.range nRepeat).forM fun _ => doRead 3

end UbusVip.MasterSeq
