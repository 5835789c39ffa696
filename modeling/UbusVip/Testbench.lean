import UbusVip.Library.Clocked
import UbusVip.CommonVip.UbusCoverage
import UbusVip.CommonVip.UbusScoreboard
import UbusVip.MasterVip.MasterDriver
import UbusVip.MasterVip.MasterMonitor
import UbusVip.SlaveVip.SlaveDriver
import UbusVip.SlaveVip.SlaveMonitor
import UbusVip.SlaveVip.SlaveSequence

namespace UbusVip

open SlaveSequence (Draw Mem)

-- what the simulator and the stimulus choose: the item offered after each edge, which is lost
-- unless the driver is waiting for one then, the draws of each request, and the order of the two
-- monitors' scoreboard calls in a time step
structure Env where
  offer : Nat → Option Item
  draw : Nat → Draw
  slaveFirst : Nat → Bool

def Env.scripted (offers : List (Nat × Item)) (draw : Draw) : Env where
  offer k := offers.lookup k
  draw _ := draw
  slaveFirst _ := false

structure Slave where
  mem : Mem
  sequence : SlaveSequence.Loc
  driver : SlaveDriver.Loc
  responses : List Packet

structure Testbench where
  bus : Bus
  masterDriver : MasterDriver.Loc
  masterMonitor : Monitor.Loc
  slaveMonitor : Monitor.Loc
  slave : Slave
  objects : Nat → Packet
  requestFifo : List Nat
  scoreboard : UbusScoreboard
  coverage : CoveredBins
  driven : List Item
  requests : List Packet
  returned : List Packet
  masterCollected : List Packet
  slaveCollected : List Packet

namespace Testbench

def init (coverage : CoveredBins) : Testbench where
  bus := .init
  masterDriver := .getNextItem
  masterMonitor := .top
  slaveMonitor := .top
  slave := ⟨fun _ => none, .get, .getNextItem, []⟩
  objects := fun _ => .create
  requestFifo := []
  scoreboard := .init
  coverage := coverage
  driven := []
  requests := []
  returned := []
  masterCollected := []
  slaveCollected := []

-- request_fifo.get, the response, and the driver starting on it, until one of them blocks
def serve (draw : Nat → Draw) (objects : Nat → Packet) :
    List Nat → Slave → (Bus → Bus) → List Nat × Slave × (Bus → Bus)
  | [], s, nba => ([], s, nba)
  | h :: fifo, s, nba =>
    match s.sequence, s.driver with
    | .get, .getNextItem =>
      let out := SlaveSequence.respond s.mem (objects h) (draw s.responses.length)
      let act := SlaveDriver.drive out.2 0
      serve draw objects fifo
        { mem := out.1
          sequence := if act.itemDone then .get else .finishItem out.2
          driver := act.loc
          responses := s.responses ++ [out.2] }
        (act.nba ∘ nba)
    | _, _ => (h :: fifo, s, nba)

-- the request FIFO holds handles, so what the slave monitor captures later shows in the object
def storeObject (id : Nat) (act : Monitor.Act) (objects : Nat → Packet) : Nat → Packet :=
  match act.loc.req?.orElse (fun _ => act.collected.getLast?) with
  | some req => Function.update objects id req
  | none => objects

def report (slaveFirst : Bool) (master slave : List Packet) (sb : UbusScoreboard) :
    UbusScoreboard :=
  if slaveFirst then master.foldl .writeMaster (slave.foldl .writeSlave sb)
  else slave.foldl .writeSlave (master.foldl .writeMaster sb)

def collect (slaveFirst : Bool) (mm sm : Monitor.Act) (s : Testbench) : Testbench :=
  { s with
    masterMonitor := mm.loc
    slaveMonitor := sm.loc
    objects := storeObject ((s.requests ++ sm.requests).length - 1) sm s.objects
    requestFifo :=
      s.requestFifo ++ (List.range sm.requests.length).map (s.requests.length + ·)
    requests := s.requests ++ sm.requests
    scoreboard := report slaveFirst mm.collected sm.collected s.scoreboard
    coverage := mm.collected.foldl UbusCoverage.write s.coverage
    masterCollected := s.masterCollected ++ mm.collected
    slaveCollected := s.slaveCollected ++ sm.collected }

def handOff (draw : Nat → Draw) (sd : SlaveDriver.Act) (s : Testbench) : Testbench :=
  let slave :=
    { s.slave with
      driver := sd.loc
      sequence := if sd.itemDone then .get else s.slave.sequence }
  let served := serve draw s.objects s.requestFifo slave sd.nba
  { s with bus := served.2.2 s.bus, slave := served.2.1, requestFifo := served.1 }

def drive (md : MasterDriver.Act) (s : Testbench) : Testbench :=
  { s with
    bus := md.nba s.bus
    masterDriver := md.loc
    returned := s.returned ++ md.itemDone.toList }

-- the processes waiting on the edge all read the pins as they stand before any of them drives
def active (draw : Nat → Draw) (slaveFirst : Bool) (s : Testbench) : Testbench :=
  handOff draw (SlaveDriver.edge s.slave.driver)
    (drive (MasterDriver.edge s.bus s.masterDriver)
      (collect slaveFirst (MasterMonitor.edge s.bus s.masterMonitor)
        (SlaveMonitor.edge s.bus s.slaveMonitor) s))

def settle (slaveFirst : Bool) (s : Testbench) : Testbench :=
  drive (MasterDriver.settle s.bus s.masterDriver)
    (collect slaveFirst (MasterMonitor.settle s.bus s.masterMonitor)
      (SlaveMonitor.settle s.bus s.slaveMonitor) s)

def edge (draw : Nat → Draw) (slaveFirst : Bool) (s : Testbench) : Testbench :=
  settle slaveFirst (active draw slaveFirst s)

-- a driver that is not in get_next_item takes no offer
def accept (offer : Option Item) (s : Testbench) : Testbench :=
  match s.masterDriver, offer with
  | .getNextItem, some tr =>
    { s with masterDriver := .command tr.val, driven := s.driven ++ [tr] }
  | _, _ => s

theorem accept_cases (offer : Option Item) (s : Testbench) :
    s.accept offer = s ∨ ∃ tr, offer = some tr ∧
      s.accept offer =
        { s with masterDriver := .command tr.val, driven := s.driven ++ [tr] } := by
  unfold accept
  split
  · exact .inr ⟨_, rfl, rfl⟩
  · exact .inl rfl

theorem accept_none (s : Testbench) : s.accept none = s := by
  rcases s.accept_cases none with h | ⟨tr, hoffer, -⟩
  · exact h
  · cases hoffer

theorem accept_idle {s : Testbench} (h : s.masterDriver = .getNextItem) (tr : Item) :
    s.accept (some tr) =
      { s with masterDriver := .command tr.val, driven := s.driven ++ [tr] } := by
  simp only [accept, h]

theorem returned_accept (offer : Option Item) (s : Testbench) :
    (s.accept offer).returned = s.returned := by
  rcases s.accept_cases offer with h | ⟨tr, -, h⟩ <;> rw [h]

def step (env : Env) (k : Nat) (s : Testbench) : Testbench :=
  accept (env.offer k) (edge env.draw (env.slaveFirst k) s)

def run (env : Env) (k : Nat) : Testbench := Clocked.run (step env) (init UbusCoverage.init) k

end Testbench

def wordWrite : Item :=
  ⟨{ Packet.create with addr := 0x10, write := true, size := 2, data := [0x5a, 0xa5] }, by decide⟩

def wordRead : Item :=
  ⟨{ Packet.create with addr := 0x10, read := true, size := 2, data := [0, 0] }, by decide⟩

def Env.writeThenRead : Env :=
  .scripted [(0, wordWrite), (8, wordRead)] (.fixed 1)

def Env.writeTwice : Env :=
  .scripted [(0, wordWrite), (8, wordWrite)] (.fixed 1)

end UbusVip
