import UbusVip.CommonVip.UbusIf

namespace UbusVip.Monitor

open FourState

inductive Branch where
  | read
  | write
deriving DecidableEq, Repr

-- a monitor is suspended at the top of its loop, in while (ubus_wait == 1), at
-- wait (ubus_wait == 0), or at the edge on which it samples byte i
inductive Loc where
  | top
  | waitHigh (br : Branch) (req : Packet) (waitCount : Nat)
  | waitLow (br : Branch) (req : Packet) (waitCount : Nat)
  | beat (br : Branch) (req : Packet) (i : Nat)
deriving DecidableEq, Repr

def Loc.req? : Loc → Option Packet
  | .top => none
  | .waitHigh _ req _ => some req
  | .waitLow _ req _ => some req
  | .beat _ req _ => some req

structure Act where
  loc : Loc
  requests : List Packet
  collected : List Packet
deriving DecidableEq, Repr

def stay (l : Loc) : Act := ⟨l, [], []⟩

def caseSize (default : Nat) (v : LogicVec 3) : Nat :=
  if v = .known 0 then 1 else if v = .known 1 then 2
  else if v = .known 2 then 4 else if v = .known 3 then 8 else default

def request (size : Nat) (p : Bus) : Packet :=
  { Packet.create with
    addr := p.ubusAddr.toBits
    size := size
    read := p.ubusRead.toBool
    write := p.ubusWrite.toBool
    data := List.replicate size 0 }

variable (after : Branch → Bus → Act)

def samples (br : Branch) (req : Packet) (i : Nat) (p : Bus) : Act :=
  if i < req.size then stay (.beat br req i)
  else
    let next := after br p
    { next with collected := req :: next.collected }

def waitLow (br : Branch) (req : Packet) (waitCount : Nat) (p : Bus) : Act :=
  if p.ubusWait = .zero then samples after br { req with waitState := waitCount } 0 p
  else stay (.waitLow br req waitCount)

def waitHigh (br : Branch) (req : Packet) (waitCount : Nat) (p : Bus) : Act :=
  if p.ubusWait = .one then stay (.waitHigh br req waitCount)
  else waitLow after br req waitCount p

def edge (top : Bus → Act) (p : Bus) : Loc → Act
  | .top => top p
  | .waitHigh br req waitCount => waitHigh after br req (waitCount + 1) p
  | .waitLow br req waitCount => stay (.waitLow br req waitCount)
  | .beat br req i =>
    samples after br { req with data := req.data.set i p.ubusData.toBits } (i + 1) p

def settle (p : Bus) : Loc → Act
  | .waitLow br req waitCount => waitLow after br req waitCount p
  | l => stay l

variable {after}

theorem samples_done {br : Branch} {req : Packet} {i : Nat} {p : Bus}
    (ha : after br p = stay .top) (hi : ¬i < req.size) :
    samples after br req i p = ⟨.top, [], [req]⟩ := by
  rw [samples, if_neg hi, ha]; rfl

theorem samples_more {br : Branch} {req : Packet} {i : Nat} (p : Bus) (hi : i < req.size) :
    samples after br req i p = stay (.beat br req i) := if_pos hi

theorem waitLow_zero {br : Branch} {req : Packet} {p : Bus} (waitCount : Nat)
    (hw : p.ubusWait = .zero) (hs : 0 < req.size) :
    waitLow after br req waitCount p = stay (.beat br { req with waitState := waitCount } 0) := by
  rw [waitLow, if_pos hw, samples_more]
  exact hs

theorem waitHigh_one (br : Branch) (req : Packet) {p : Bus} (waitCount : Nat)
    (hw : p.ubusWait = .one) : waitHigh after br req waitCount p = stay (.waitHigh br req waitCount) :=
  if_pos hw

theorem waitHigh_zero {br : Branch} {req : Packet} {p : Bus} (waitCount : Nat)
    (hw : p.ubusWait = .zero) (hs : 0 < req.size) :
    waitHigh after br req waitCount p = stay (.beat br { req with waitState := waitCount } 0) := by
  rw [waitHigh, hw, if_neg (by decide), waitLow_zero waitCount hw hs]

end UbusVip.Monitor
