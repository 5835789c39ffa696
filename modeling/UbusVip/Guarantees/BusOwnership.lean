import UbusVip.Refinement.Run
import UbusVip.Schedule

namespace UbusVip

open FourState

structure Command where
  addr : BitVec 16
  read : Bool
  write : Bool
  size : BitVec 3
deriving DecidableEq, Repr

def Packet.toCommand (p : Packet) : Command :=
  ⟨p.addr, p.read, p.write, MasterDriver.sizeCode p.size⟩

def Bus.command? (b : Bus) : Option Command :=
  if b.command then
    some ⟨b.ubusAddr.toBits, b.ubusRead.toBool, b.ubusWrite.toBool, b.ubusSize.toBits⟩
  else none

def MasterDriver.Loc.pending : MasterDriver.Loc → List Packet
  | .command tr => [tr]
  | .address tr => [tr]
  | _ => []

def commandsBefore (env : Env) (k : Nat) : List Command :=
  (List.range k).filterMap fun e => (Testbench.run env e).bus.command?

structure Owned (b : Bus) : Prop where
  exclusive : ¬(b.ubusRead = .one ∧ b.ubusWrite = .one)
  quiet : b.ubusWait = .zero → b.ubusRead ≠ .one ∧ b.ubusWrite ≠ .one
  oneDriver : b.masterData = .z ∨ b.slaveData = .z
  masterWire : b.masterData ≠ .z → b.ubusData = b.masterData
  slaveWire : b.slaveData ≠ .z → b.ubusData = b.slaveData

variable {b : Bus}

theorem Quiet.owned {started : Bool} (h : Quiet started b) : Owned b where
  exclusive hc := h.read hc.1
  quiet _ := ⟨h.read, h.write⟩
  oneDriver := .inl h.masterData
  masterWire hm := absurd h.masterData hm
  slaveWire hs := absurd h.slaveData hs

theorem Quiet.command? {started : Bool} (h : Quiet started b) : b.command? = none :=
  if_neg h.not_command

theorem Commanded.owned {started : Bool} {tr : Item} (h : Commanded started tr b) : Owned b where
  exclusive := h.exclusive
  quiet hw := absurd hw h.wait_ne
  oneDriver := .inl h.masterData
  masterWire hm := absurd h.masterData hm
  slaveWire hs := absurd h.slaveData hs

theorem Commanded.command? {started : Bool} {tr : Item} (h : Commanded started tr b) :
    b.command? = some tr.val.toCommand := by
  rw [Bus.command?, if_pos h.command, h.addr, h.read, h.write, h.size]
  simp [Packet.toCommand]

theorem Carrying.owned {t : Transfer} {i : Nat} {w : Logic} (h : Carrying t i w b) : Owned b where
  exclusive hc := by rw [h.read] at hc; exact absurd hc.1 (by decide)
  quiet _ := by rw [h.read, h.write]; decide
  oneDriver := by
    rw [h.masterData, h.slaveData]
    cases t.read <;> simp
  masterWire hm := by
    rw [h.masterData] at hm ⊢
    cases hr : t.read <;> simp [hr, h.data] at hm ⊢
  slaveWire hs := by
    rw [h.slaveData] at hs ⊢
    cases hr : t.read <;> simp [hr, h.data] at hs ⊢

theorem Carrying.command? {t : Transfer} {i : Nat} {w : Logic} (h : Carrying t i w b) :
    b.command? = none := if_neg h.not_command

variable {cov : CoveredBins} {tl : Timeline} {s : Testbench}

theorem Follows.owned (h : Follows cov tl s) : Owned s.bus := by
  obtain ⟨past, phase, mem⟩ := tl
  have hpins := h.pins
  cases phase with
  | idle late => exact hpins.1.owned
  | command late tr => exact hpins.1.owned
  | address tr => exact Commanded.owned hpins
  | wait t i => exact Carrying.owned hpins
  | beat t i => exact hpins.1.owned
  | tail t hr => exact hpins.1.owned

theorem Follows.command? (h : Follows cov tl s) :
    s.bus.command?.toList = tl.shown.map fun tr => tr.val.toCommand := by
  obtain ⟨past, phase, mem⟩ := tl
  have hpins := h.pins
  cases phase with
  | idle late => rw [hpins.1.command?]; rfl
  | command late tr => rw [hpins.1.command?]; rfl
  | address tr => rw [Commanded.command? hpins]; rfl
  | wait t i => rw [Carrying.command? hpins]; rfl
  | beat t i => rw [hpins.1.command?]; rfl
  | tail t hr => rw [hpins.1.command?]; rfl

theorem Follows.pending (h : Follows cov tl s) :
    s.masterDriver.pending = tl.pending.map (·.val) := by
  obtain ⟨past, phase, mem⟩ := tl
  rw [h.master]
  cases phase <;> rfl

theorem commandsBefore_eq (env : Env) (k : Nat) :
    commandsBefore env k =
      ((Timeline.run env k).opened.map (·.item)).map fun tr => tr.val.toCommand := by
  induction k with
  | zero => rfl
  | succ k ih =>
    have hk := (run_follows env k).command?
    rw [commandsBefore, List.range_succ, List.filterMap_append, ← commandsBefore, ih,
      Timeline.opened_step, List.map_append, ← hk]
    cases hc : (Testbench.run env k).bus.command? <;> simp [hc]

theorem bus_owned (env : Env) (k : Nat) :
    let s := Testbench.run env k
    Owned s.bus ∧
      commandsBefore env k ++ s.masterDriver.pending.map (·.toCommand) =
        s.driven.map fun tr => tr.val.toCommand := by
  have h := run_follows env k
  refine ⟨h.owned, ?_⟩
  rw [commandsBefore_eq, h.pending, h.driven]
  simp [Timeline.view, Timeline.items]

theorem bus_owned_writeThenRead :
    let s := Testbench.run .writeThenRead 14
    Owned s.bus ∧ s.driven = [wordWrite, wordRead] ∧
      commandsBefore .writeThenRead 14 ++ s.masterDriver.pending.map (·.toCommand) =
        [wordWrite.val.toCommand, wordRead.val.toCommand] := by
  intro s
  obtain ⟨howned, hcommands⟩ := bus_owned .writeThenRead 14
  have hdriven : s.driven = [wordWrite, wordRead] := by decide
  refine ⟨howned, hdriven, hcommands.trans ?_⟩
  rw [hdriven]
  rfl

end UbusVip
