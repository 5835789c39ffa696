import UbusVip.CommonVip.UbusIf

namespace UbusVip.MasterDriver

open FourState

-- where the driver is suspended: get_next_item, the two command edges, the level wait on
-- ubus_wait, the edge closing beat i, and the extra edge after a write
inductive Loc where
  | getNextItem
  | command (tr : Packet)
  | address (tr : Packet)
  | waitLow (tr : Packet)
  | beat (tr : Packet) (i : Nat)
  | tail (tr : Packet)
deriving DecidableEq, Repr

structure Act where
  loc : Loc
  nba : Bus → Bus
  itemDone : Option Packet

def sizeCode (size : Nat) : BitVec 3 :=
  if size = 1 then 0 else if size = 2 then 1 else if size = 4 then 2 else if size = 8 then 3 else 0

def driveCommand (tr : Packet) (b : Bus) : Bus :=
  { b with
    ubusAddr := .known tr.addr
    ubusWrite := .ofBool tr.write
    ubusRead := .ofBool tr.read
    ubusSize := .known (sizeCode tr.size)
    ubusBip := .zero }

def releaseCommand (b : Bus) : Bus :=
  { b with ubusSize := .z, ubusRead := .z, ubusWrite := .z, ubusAddr := .z }

def itemDone (tr : Packet) (nba : Bus → Bus) : Act := ⟨.getNextItem, nba, some tr⟩

def writeBeats (tr : Packet) (i : Nat) : Act :=
  if i < tr.size then
    ⟨.beat tr i, fun b => Bus.driveMasterData (.known (tr.byte i))
      { releaseCommand b with ubusBip := if i = tr.size - 1 then .zero else .one }, none⟩
  else
    ⟨.tail tr, fun b => Bus.driveMasterData .z { releaseCommand b with ubusBip := .zero }, none⟩

def readBeats (tr : Packet) (i : Nat) (p : Bus) : Act :=
  if i < tr.size then
    ⟨.beat { tr with data := tr.data.set i p.ubusData.toBits } i,
      fun b => { b with ubusBip := if i = tr.size - 1 then .zero else .one }, none⟩
  else
    itemDone tr id

def beats (tr : Packet) (i : Nat) (p : Bus) : Act :=
  if tr.write then writeBeats tr i else readBeats tr i p

def waitLow (tr : Packet) (p : Bus) : Act :=
  if p.ubusWait = .zero then beats tr 0 p else ⟨.waitLow tr, id, none⟩

def address (tr : Packet) (p : Bus) : Act :=
  let next := waitLow tr p
  let nba := fun b =>
    let b := { releaseCommand b with ubusBip := .zero }
    if tr.write then Bus.driveMasterData (.known (tr.byte 0)) b else b
  { next with nba := next.nba ∘ nba }

def command (tr : Packet) : Act :=
  if tr.write then ⟨.address tr, driveCommand tr, none⟩
  else if tr.read then ⟨.address tr, Bus.driveMasterData .z ∘ driveCommand tr, none⟩
  else itemDone tr (driveCommand tr)

def edge (p : Bus) : Loc → Act
  | .getNextItem => ⟨.getNextItem, id, none⟩
  | .command tr => command tr
  | .address tr => address tr p
  | .waitLow tr => ⟨.waitLow tr, id, none⟩
  | .beat tr i => beats tr (i + 1) p
  | .tail tr => itemDone tr id

def settle (p : Bus) : Loc → Act
  | .waitLow tr => waitLow tr p
  | l => ⟨l, id, none⟩

end UbusVip.MasterDriver
