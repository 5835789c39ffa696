import UbusVip.Testbench

namespace UbusVip

open SlaveSequence (Draw)

-- the items given to the driver that its get_next_item has not taken yet, in order, each with
-- the idle edges it still lets pass after the item before it
structure ItemFeed where
  tb : Testbench
  waiting : List (Nat × Item)

namespace ItemFeed

def given (script : List (Nat × Item)) : List Item := script.map Prod.snd

def start (script : List (Nat × Item)) : ItemFeed := ⟨.init UbusCoverage.init, script⟩

-- the driver is in get_next_item
def give (tb : Testbench) : List (Nat × Item) → ItemFeed
  | [] => ⟨tb, []⟩
  | (0, tr) :: rest => ⟨tb.accept (some tr), rest⟩
  | (gap + 1, tr) :: rest => ⟨tb, (gap, tr) :: rest⟩

variable (draw : Nat → Draw) (slaveFirst : Nat → Bool)

def edge (k : Nat) (c : ItemFeed) : Testbench := c.tb.edge draw (slaveFirst k)

def step (k : Nat) (c : ItemFeed) : ItemFeed :=
  if (edge draw slaveFirst k c).masterDriver = .getNextItem then
    give (edge draw slaveFirst k c) c.waiting
  else ⟨edge draw slaveFirst k c, c.waiting⟩

def run (script : List (Nat × Item)) (k : Nat) : ItemFeed :=
  Clocked.run (step draw slaveFirst) (start script) k

end ItemFeed

end UbusVip
