import UbusVip.CommonVip.UbusIf

namespace UbusVip.SlaveDriver

open FourState

inductive Loc where
  | getNextItem
  | waitEdge (tr : Packet) (i : Nat)
  | dataEdge (tr : Packet) (i : Nat)
  | tailEdge (tr : Packet)
deriving DecidableEq, Repr

structure Act where
  loc : Loc
  nba : Bus → Bus
  itemDone : Bool

def driveWait (l : Logic) (b : Bus) : Bus := { b with ubusWait := l }

def readBeats (tr : Packet) (i : Nat) : Act :=
  if i < tr.size then
    ⟨.dataEdge tr i, Bus.driveSlaveData (.known (tr.byte i)) ∘ driveWait .zero, false⟩
  else ⟨.tailEdge tr, Bus.driveSlaveData .z ∘ driveWait .one, false⟩

def driveReadResponse (tr : Packet) (i : Nat) : Act :=
  if i < tr.waitState then
    ⟨.waitEdge tr i, Bus.driveSlaveData (.known (tr.byte 0)) ∘ driveWait .one, false⟩
  else readBeats tr 0

def writeBeats (tr : Packet) (i : Nat) : Act :=
  if i < tr.size then ⟨.dataEdge tr i, id, false⟩
  else ⟨.getNextItem, driveWait .one, true⟩

def driveWriteResponse (tr : Packet) (i : Nat) : Act :=
  if i < tr.waitState then ⟨.waitEdge tr i, driveWait .one, false⟩
  else
    let next := writeBeats tr 0
    { next with nba := next.nba ∘ driveWait .zero }

def drive (tr : Packet) (i : Nat) : Act :=
  if tr.read then driveReadResponse tr i
  else if tr.write then driveWriteResponse tr i
  else ⟨.getNextItem, id, true⟩

def edge : Loc → Act
  | .getNextItem => ⟨.getNextItem, id, false⟩
  | .waitEdge tr i => drive tr (i + 1)
  | .dataEdge tr i => if tr.read then readBeats tr (i + 1) else writeBeats tr (i + 1)
  | .tailEdge _ => ⟨.getNextItem, id, true⟩

end UbusVip.SlaveDriver
