import UbusVip.CommonVip.Packet

namespace UbusVip

open FourState

-- the pins of ubus_m_if and ubus_s_if as dummy_dut joins them; masterData and slaveData
-- remember the last value each driver assigned to the shared data wire (z before the first)
structure Bus where
  ubusAddr : LogicVec 16
  ubusSize : LogicVec 3
  ubusRead : Logic
  ubusWrite : Logic
  ubusBip : Logic
  ubusData : LogicVec 8
  ubusWait : Logic
  masterData : LogicVec 8
  slaveData : LogicVec 8
deriving DecidableEq, Repr

namespace Bus

def init : Bus where
  ubusAddr := .x
  ubusSize := .x
  ubusRead := .x
  ubusWrite := .x
  ubusBip := .x
  ubusData := .x
  ubusWait := .x
  masterData := .z
  slaveData := .z

def driveMasterData (v : LogicVec 8) (b : Bus) : Bus := { b with ubusData := v, masterData := v }

def driveSlaveData (v : LogicVec 8) (b : Bus) : Bus := { b with ubusData := v, slaveData := v }

def command (b : Bus) : Prop := b.ubusRead = .one ∨ b.ubusWrite = .one

instance (b : Bus) : Decidable b.command := by
  unfold command; infer_instance

end Bus

end UbusVip
