import UbusVip.CommonVip.Monitor

namespace UbusVip.MasterMonitor

open Monitor

def ifWrite (p : Bus) : Act :=
  if p.ubusWrite = .one then
    waitHigh (fun _ _ => stay .top) .write
      (request (caseSize p.ubusSize.toBits.toNat p.ubusSize) p) 0 p
  else stay .top

-- a finished read falls through to the test of ubus_write on the same edge
def after : Branch → Bus → Act
  | .read, p => ifWrite p
  | .write, _ => stay .top

def top (p : Bus) : Act :=
  if p.ubusRead = .one then waitHigh after .read (request (caseSize 0 p.ubusSize) p) 0 p
  else ifWrite p

def edge (p : Bus) (l : Loc) : Act := Monitor.edge after top p l

def settle (p : Bus) (l : Loc) : Act := Monitor.settle after p l

end UbusVip.MasterMonitor
