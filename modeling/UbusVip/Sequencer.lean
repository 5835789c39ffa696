import UbusVip.Library.Interaction
import UbusVip.Testbench

namespace UbusVip

open Interaction (Prog)
open SlaveSequence (Draw)

-- coverageFirst: the master monitor's publication runs before the sequence in the time step
structure Platform where
  draw : Nat → Draw
  slaveFirst : Nat → Bool
  coverageFirst : Nat → Bool

structure Desk where
  covered : CoveredBins
  sent : Nat

-- what an operation of a sequence waits for: nothing, the driver and then the item_done of its
-- item, the oldest response in the queue, or a number of clock edges
inductive Demand (ρ : Type) where
  | now (r : ρ)
  | send (tr : Item) (r : ρ)
  | take (f : Packet → ρ)
  | edges (n : Nat) (r : ρ)

abbrev Client (Op : Type) (Res : Op → Type) := Desk → (op : Op) → Demand (Res op)

inductive Blocked where
  | start
  | grant (tr : Item)
  | item
  | response
  | edges (n : Nat)
  | ended
deriving DecidableEq

def Blocked.tick : Blocked → Blocked
  | .edges n => .edges (n - 1)
  | b => b

-- the default response_queue_depth of a sequence; a response that finds the queue full is dropped
def responseDepth : Nat := 8

structure Account (Op : Type) (Res : Op → Type) where
  items : List Item
  paused : Nat
  log : List (Sigma Res)
  queue : List Packet
  taken : List Packet

namespace Account

variable {Op : Type} {Res : Op → Type}

def empty : Account Op Res := ⟨[], 0, [], [], []⟩

def note (acc : Account Op Res) (op : Op) (r : Res op) : Account Op Res :=
  { acc with log := acc.log ++ [⟨op, r⟩] }

def send (acc : Account Op Res) (tr : Item) : Account Op Res :=
  { acc with items := acc.items ++ [tr] }

def pause (acc : Account Op Res) (n : Nat) : Account Op Res := { acc with paused := acc.paused + n }

def deliver (acc : Account Op Res) (rsp : Packet) : Account Op Res :=
  { acc with queue := if acc.queue.length < responseDepth then acc.queue ++ [rsp] else acc.queue }

def take (acc : Account Op Res) : Account Op Res :=
  { acc with queue := acc.queue.tail, taken := acc.taken ++ acc.queue.head?.toList }

end Account

structure SequenceRun (Op : Type) (Res : Op → Type) (α : Type) where
  tb : Testbench
  rest : Prog Op Res α
  blocked : Blocked
  account : Account Op Res

namespace SequenceRun

variable {Op : Type} {Res : Op → Type} {α : Type}

def start (tb : Testbench) (p : Prog Op Res α) : SequenceRun Op Res α := ⟨tb, p, .start, .empty⟩

variable (client : Client Op Res)

def exec (desk : Desk) (tb : Testbench) :
    Prog Op Res α → Account Op Res → SequenceRun Op Res α
  | .ret a, acc => ⟨tb, .ret a, .ended, acc⟩
  | .call op next, acc =>
    match client desk op with
    | .now r => exec desk tb (next r) (acc.note op r)
    | .send tr r =>
      if tb.masterDriver = .getNextItem then
        ⟨tb.accept (some tr), next r, .item, (acc.note op r).send tr⟩
      else ⟨tb, next r, .grant tr, acc.note op r⟩
    | .take f =>
      match acc.queue with
      | [] => ⟨tb, .call op next, .response, acc⟩
      | rsp :: _ => exec desk tb (next (f rsp)) (acc.note op (f rsp)).take
    | .edges 0 r => exec desk tb (next r) (acc.note op r)
    | .edges (n + 1) r => ⟨tb, next r, .edges n, (acc.note op r).pause (n + 1)⟩

variable (e : Platform) (k : Nat) (c : SequenceRun Op Res α)

def edge : Testbench := c.tb.edge e.draw (e.slaveFirst k)

-- body runs at once; start_item waits for the driver, finish_item for item_done
def Resumes : Prop :=
  match c.blocked with
  | .start => True
  | .grant _ => (edge e k c).masterDriver = .getNextItem
  | .item => c.tb.returned.length < (edge e k c).returned.length
  | .response => c.account.queue ≠ []
  | .edges n => n = 0
  | .ended => False

instance : Decidable (Resumes e k c) :=
  match h : c.blocked with
  | .start => .isTrue (by simp only [Resumes, h])
  | .grant _ => decidable_of_iff ((edge e k c).masterDriver = .getNextItem) (by simp only [Resumes, h])
  | .item =>
    decidable_of_iff (c.tb.returned.length < (edge e k c).returned.length) (by simp only [Resumes, h])
  | .response => decidable_of_iff (c.account.queue ≠ []) (by simp only [Resumes, h])
  | .edges n => decidable_of_iff (n = 0) (by simp only [Resumes, h])
  | .ended => .isFalse (by simp only [Resumes, h, not_false_eq_true])

def desk : Desk where
  covered := if e.coverageFirst k then (edge e k c).coverage else c.tb.coverage
  sent := c.account.items.length

def response : Packet := (edge e k c).returned.getLast?.getD .create

def resume : SequenceRun Op Res α :=
  match c.blocked with
  | .grant tr =>
    { c with
      tb := (edge e k c).accept (some tr)
      blocked := .item
      account := c.account.send tr }
  | .item => exec client (desk e k c) (edge e k c) c.rest (c.account.deliver (response e k c))
  | _ => exec client (desk e k c) (edge e k c) c.rest c.account

def step : SequenceRun Op Res α :=
  if Resumes e k c then resume client e k c
  else { c with tb := edge e k c, blocked := c.blocked.tick }

def run (tb : Testbench) (p : Prog Op Res α) (k : Nat) : SequenceRun Op Res α :=
  Clocked.run (step client e) (start tb p) k

end SequenceRun

end UbusVip
