import UbusVip.CommonVip.Monitor

namespace UbusVip.SlaveMonitor

open Monitor

def after (_ : Branch) (_ : Bus) : Act := stay .top

def collect (br : Branch) (req : Packet) (p : Bus) : Act :=
  let next := waitHigh after br req 0 p
  { next with requests := req :: next.requests }

def collectDelayedReadData (req : Packet) (p : Bus) : Act := collect .read req p

def collectWriteDataImmediately (req : Packet) (p : Bus) : Act := collect .write req p

def top (p : Bus) : Act :=
  if p.ubusRead = .one ∨ p.ubusWrite = .one then
    let req := request (caseSize 0 p.ubusSize) p
    if req.read then collectDelayedReadData req p
    else if req.write then collectWriteDataImmediately req p
    else stay .top
  else stay .top

def edge (p : Bus) (l : Loc) : Act := Monitor.edge after top p l

def settle (p : Bus) (l : Loc) : Act := Monitor.settle after p l

end UbusVip.SlaveMonitor
