import UbusVip.Schedule
import UbusVip.Sequencer

namespace UbusVip

open Interaction (Prog)
open SlaveSequence (Draw)

namespace Timeline

def after (draw : Nat → Draw) (n : Nat) (tl : Timeline) : Timeline := (advance draw)^[n] tl

def visible (coverageFirst : Bool) (draw : Nat → Draw) (tl : Timeline) : List Transfer :=
  if coverageFirst then (tl.advance draw).reported else tl.reported

end Timeline

-- a time step in which a sequence runs: the number of its clock edge and the timeline before it;
-- waited: the edges spent in start_item; starved: a get_response has found the queue empty
structure Moment (Op : Type) (Res : Op → Type) where
  edge : Nat
  tl : Timeline
  waited : Nat
  starved : Bool
  account : Account Op Res

namespace Moment

variable {Op : Type} {Res : Op → Type}

def start (tl : Timeline) : Moment Op Res := ⟨0, tl, 0, false, .empty⟩

variable (e : Platform) (m : Moment Op Res)

def covered : CoveredBins :=
  (reports (m.tl.visible (e.coverageFirst m.edge) e.draw)).foldl UbusCoverage.write UbusCoverage.init

def desk : Desk := ⟨m.covered e, m.account.items.length⟩

def returned : List Packet := (m.tl.advance e.draw).finished.map fun t => t.handed t.size

def response : Packet := (m.returned e).getLast?.getD .create

def oldest : Packet := m.account.queue.head?.getD .create

def note (op : Op) (r : Res op) : Moment Op Res := { m with account := m.account.note op r }

def take : Moment Op Res :=
  { m with account := m.account.take, starved := m.starved || m.account.queue.isEmpty }

def grant : Moment Op Res :=
  let n := (m.tl.advance e.draw).busy e.draw
  { m with edge := m.edge + n, tl := m.tl.after e.draw n, waited := m.waited + n }

def deliver : Moment Op Res := { m with account := m.account.deliver (m.response e) }

def transfer (tr : Item) : Moment Op Res :=
  let tl := (m.tl.advance e.draw).accept (some tr)
  deliver e
    { m with
      edge := m.edge + tl.busy e.draw
      tl := tl.after e.draw (tl.busy e.draw - 1)
      account := m.account.send tr }

def send (tr : Item) : Moment Op Res := (m.grant e).transfer e tr

def pause (n : Nat) : Moment Op Res :=
  { m with edge := m.edge + n, tl := m.tl.after e.draw n, account := m.account.pause n }

-- one operation of a sequence as a transaction: the whole transfer, or the whole wait, at once
def handle (client : Client Op Res) (op : Op) (m : Moment Op Res) : Res op × Moment Op Res :=
  match client (m.desk e) op with
  | .now r => (r, m.note op r)
  | .send tr r => (r, (m.note op r).send e tr)
  | .take f => (f m.oldest, (m.note op (f m.oldest)).take)
  | .edges n r => (r, (m.note op r).pause e n)

theorem handle_of_send {client : Client Op Res} {e : Platform} {m : Moment Op Res} {op : Op}
    {tr : Item} {r : Res op} (h : client (m.desk e) op = .send tr r) :
    handle e client op m = (r, (m.note op r).send e tr) := by
  simp only [handle, h]

theorem handle_of_take {client : Client Op Res} {e : Platform} {m : Moment Op Res} {op : Op}
    {f : Packet → Res op} (h : client (m.desk e) op = .take f) :
    handle e client op m = (f m.oldest, (m.note op (f m.oldest)).take) := by
  simp only [handle, h]

end Moment

namespace Timeline

variable {draw : Nat → Draw} {tl : Timeline}

theorem after_succ (draw : Nat → Draw) (n : Nat) (tl : Timeline) :
    tl.after draw (n + 1) = (tl.after draw n).advance draw := Function.iterate_succ_apply' ..

theorem after_after (draw : Nat → Draw) (m n : Nat) (tl : Timeline) :
    (tl.after draw m).after draw n = tl.after draw (n + m) := (Function.iterate_add_apply ..).symm

theorem advance_after (n : Nat) (tl : Timeline) :
    (tl.after draw n).advance draw = (tl.advance draw).after draw n :=
  (Function.iterate_succ_apply' _ _ _).symm.trans (Function.iterate_succ_apply _ _ _)

theorem busy_after (n : Nat) (tl : Timeline) : (tl.after draw n).busy draw = tl.busy draw - n := by
  induction n generalizing tl with
  | zero => rfl
  | succ n ih =>
    change ((tl.advance draw).after draw n).busy draw = _
    rw [ih, busy_advance_sub, Nat.sub_sub, Nat.add_comm]

theorem items_after (n : Nat) (tl : Timeline) : (tl.after draw n).items = tl.items := by
  induction n generalizing tl with
  | zero => rfl
  | succ n ih => exact (ih _).trans (items_advance draw tl)

theorem finished_lt (h : tl.busy draw = 1) :
    tl.finished.length < (tl.advance draw).finished.length := by
  obtain ⟨past, phase, mem⟩ := tl
  cases phase with
  | idle late => simp [busy] at h
  | command late tr => simp only [busy] at h; omega
  | address tr => simp only [busy] at h; have := tr.size_pos; omega
  | wait t i => simp only [busy] at h; have := i.isLt; have := t.size_pos; omega
  | beat t i =>
    have hi := i.isLt
    simp only [busy] at h
    cases hr : t.read with
    | true =>
      have hlast : ¬i + 1 < t.size := by rw [hr] at h; simp only [Transfer.tailSpan] at h; omega
      simp [advance, finished, hlast, hr]
    | false => rw [hr] at h; simp [Transfer.tailSpan] at h; omega
  | tail t hr => simp [advance, finished]

theorem items_accept (tr : Item) (h : ¬0 < tl.busy draw) :
    (tl.accept (some tr)).items = tl.items ++ [tr] := by
  obtain ⟨late, hphase⟩ := idle_of_not_busy h
  simp [accept, items, opened, pending, hphase]

theorem busy_accept (tr : Item) (h : ¬0 < tl.busy draw) :
    (tl.accept (some tr)).busy draw =
      2 + (draw tl.opened.length).waitState + tr.val.size + Transfer.tailSpan tr.val.read := by
  obtain ⟨late, hphase⟩ := idle_of_not_busy h
  simp [accept, busy, opened, hphase]

end Timeline

end UbusVip
