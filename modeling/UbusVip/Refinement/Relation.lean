import UbusVip.Timeline

namespace UbusVip

open FourState
open SlaveSequence (Draw Mem respond)

namespace Timeline

def masterLoc (tl : Timeline) : MasterDriver.Loc :=
  match tl.phase with
  | .idle _ => .getNextItem
  | .command _ tr => .command tr.val
  | .address tr => .address tr.val
  | .wait t _ => .waitLow t.item.val
  | .beat t i => .beat (t.handed (i + 1)) i
  | .tail t _ => .tail t.item.val

def lateMonitor (past : List Transfer) : Option Transfer → Monitor.Loc
  | some t =>
    if past.isEmpty then .top else .beat t.branch (t.captured false (t.size - 1)) (t.size - 1)
  | none => .top

def waitMonitor (past : List Transfer) (t : Transfer) (i : Nat) : Monitor.Loc :=
  if past.isEmpty then .waitLow t.branch (request t.item) 0
  else .waitHigh t.branch (request t.item) i

def beatMonitor (past : List Transfer) (t : Transfer) (i : Nat) : Monitor.Loc :=
  if past.isEmpty then .beat t.branch (t.captured true i) i
  else if i = 0 then .waitHigh t.branch (request t.item) t.waits
  else .beat t.branch (t.captured false (i - 1)) (i - 1)

def monitorLoc (tl : Timeline) : Monitor.Loc :=
  match tl.phase with
  | .idle late => lateMonitor tl.past late
  | .command late _ => lateMonitor tl.past late
  | .address _ => .top
  | .wait t i => waitMonitor tl.past t i
  | .beat t i => beatMonitor tl.past t i
  | .tail t _ => lateMonitor tl.past (some t)

def lateSlave : Option Transfer → SlaveDriver.Loc
  | some t => .tailEdge t.rsp
  | none => .getNextItem

def slaveLoc (tl : Timeline) : SlaveDriver.Loc :=
  match tl.phase with
  | .idle late => lateSlave late
  | .command late _ => lateSlave late
  | .address _ => .getNextItem
  | .wait t i => .waitEdge t.rsp i
  | .beat t i => .dataEdge t.rsp i
  | .tail _ _ => .getNextItem

def lateSequence : Option Transfer → SlaveSequence.Loc
  | some t => .finishItem t.rsp
  | none => .get

def sequenceLoc (tl : Timeline) : SlaveSequence.Loc :=
  match tl.phase with
  | .idle late => lateSequence late
  | .command late _ => lateSequence late
  | .address _ => .get
  | .wait t _ => .finishItem t.rsp
  | .beat t _ => .finishItem t.rsp
  | .tail _ _ => .get

end Timeline

def restWait (started : Bool) : Logic := if started then .one else .x

structure Quiet (started : Bool) (b : Bus) : Prop where
  read : b.ubusRead ≠ .one
  write : b.ubusWrite ≠ .one
  wait : b.ubusWait = restWait started
  masterData : b.masterData = .z
  slaveData : b.slaveData = .z

structure Commanded (started : Bool) (tr : Item) (b : Bus) : Prop where
  read : b.ubusRead = .ofBool tr.val.read
  write : b.ubusWrite = .ofBool tr.val.write
  addr : b.ubusAddr = .known tr.val.addr
  size : b.ubusSize = .known (MasterDriver.sizeCode tr.val.size)
  wait : b.ubusWait = restWait started
  masterData : b.masterData = .z
  slaveData : b.slaveData = .z

structure Carrying (t : Transfer) (i : Nat) (wait : Logic) (b : Bus) : Prop where
  read : b.ubusRead = .z
  write : b.ubusWrite = .z
  wait : b.ubusWait = wait
  data : b.ubusData = .known (t.byte i)
  masterData : b.masterData = if t.read then .z else .known (t.byte i)
  slaveData : b.slaveData = if t.read then .known (t.byte i) else .z

variable {b : Bus}

theorem restWait_ne_zero (started : Bool) : restWait started ≠ .zero := by
  cases started <;> decide

theorem Quiet.not_command {started : Bool} (h : Quiet started b) : ¬b.command :=
  fun hc => hc.elim h.read h.write

theorem Quiet.wait_ne {started : Bool} (h : Quiet started b) : b.ubusWait ≠ .zero :=
  h.wait.trans_ne (restWait_ne_zero started)

theorem Commanded.command {started : Bool} {tr : Item} (h : Commanded started tr b) :
    b.command := by
  rw [Bus.command, h.read, h.write, tr.write_eq]
  cases tr.val.read <;> decide

theorem Commanded.wait_ne {started : Bool} {tr : Item} (h : Commanded started tr b) :
    b.ubusWait ≠ .zero :=
  h.wait.trans_ne (restWait_ne_zero started)

theorem Commanded.exclusive {started : Bool} {tr : Item} (h : Commanded started tr b) :
    ¬(b.ubusRead = .one ∧ b.ubusWrite = .one) := by
  rw [h.read, h.write, tr.write_eq]
  cases tr.val.read <;> decide

theorem Carrying.not_command {t : Transfer} {i : Nat} {w : Logic} (h : Carrying t i w b) :
    ¬b.command := by
  rw [Bus.command, h.read, h.write]
  decide

def lastBip (t : Transfer) (i : Nat) : Logic := if i = t.size - 1 then .zero else .one

namespace Timeline

def Pins (tl : Timeline) (b : Bus) : Prop :=
  match tl.phase with
  | .idle late => Quiet (!tl.past.isEmpty || late.isSome) b ∧ (late.isSome → b.ubusData = .z)
  | .command late _ => Quiet (!tl.past.isEmpty || late.isSome) b ∧ (late.isSome → b.ubusData = .z)
  | .address tr => Commanded (!tl.past.isEmpty) tr b
  | .wait t _ => Carrying t 0 .one b
  | .beat t i => Carrying t i .zero b ∧ b.ubusBip = lastBip t i
  | .tail _ _ => Quiet true b ∧ b.ubusData = .z

end Timeline

def score (ps : List Packet) : UbusScoreboard :=
  ps.foldl (fun sb p => (sb.writeMaster p).writeSlave p) .init

structure Published (cov : CoveredBins) (ps : List Packet) (s : Testbench) : Prop where
  masterCollected : s.masterCollected = ps
  slaveCollected : s.slaveCollected = ps
  scoreboard : s.scoreboard = score ps
  coverage : s.coverage = ps.foldl UbusCoverage.write cov

structure Served (ts : List Transfer) (s : Testbench) : Prop where
  fifo : s.requestFifo = []
  requests : s.requests = ts.map (request ·.item)
  responses : s.slave.responses = ts.map (·.rsp)

structure View where
  master : MasterDriver.Loc
  monitor : Monitor.Loc
  slave : SlaveDriver.Loc
  sequence : SlaveSequence.Loc
  pins : Bus → Prop
  mem : Mem
  items : List Item
  opened : List Transfer
  finished : List Transfer
  reported : List Transfer

structure Shows (cov : CoveredBins) (v : View) (s : Testbench) : Prop where
  master : s.masterDriver = v.master
  masterMonitor : s.masterMonitor = v.monitor
  slaveMonitor : s.slaveMonitor = v.monitor
  slaveDriver : s.slave.driver = v.slave
  sequence : s.slave.sequence = v.sequence
  mem : s.slave.mem = v.mem
  pins : v.pins s.bus
  driven : s.driven = v.items
  returned : s.returned = v.finished.map fun t => t.handed t.size
  served : Served v.opened s
  published : Published cov (reports v.reported) s

def Timeline.view (tl : Timeline) : View where
  master := tl.masterLoc
  monitor := tl.monitorLoc
  slave := tl.slaveLoc
  sequence := tl.sequenceLoc
  pins := tl.Pins
  mem := tl.mem
  items := tl.items
  opened := tl.opened
  finished := tl.finished
  reported := tl.reported

def Follows (cov : CoveredBins) (tl : Timeline) (s : Testbench) : Prop := Shows cov tl.view s

theorem follows_init (cov : CoveredBins) : Follows cov .init (.init cov) := by
  constructor <;> try rfl
  · exact ⟨⟨nofun, nofun, rfl, rfl, rfl⟩, nofun⟩
  · exact ⟨rfl, rfl, rfl⟩
  · exact ⟨rfl, rfl, rfl, rfl⟩

end UbusVip
