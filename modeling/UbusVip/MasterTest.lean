import UbusVip.MasterVip.MasterSeq
import UbusVip.Transactions

namespace UbusVip

open Interaction (Prog)

def Satisfiable (c : Packet → Prop) : Prop := ∃ p : Packet, p.Legal ∧ p.globalLegality ∧ c p

-- a constraint solver that fails only where no packet meets all constraints
structure Randomizer where
  solve : Nat → (Packet → Prop) → Packet
  sound : ∀ k c, Satisfiable c → (solve k c).Legal ∧ (solve k c).globalLegality ∧ c (solve k c)

noncomputable def Randomizer.any : Randomizer where
  solve _ c := open Classical in if h : Satisfiable c then h.choose else .create
  sound _ c h := by
    rw [dif_pos h]
    exact h.choose_spec

def Randomizer.item (r : Randomizer) (k : Nat) {c : Packet → Prop} (hc : Satisfiable c) : Item :=
  ⟨r.solve k c, (r.sound k c hc).1⟩

namespace MasterSeq

def issue (req : Packet) : Demand Unit := if h : req.Legal then .send ⟨req, h⟩ () else .now ()

def client (r : Randomizer) : Client Op Res
  | desk, .doWith c => issue (r.solve desk.sent c)
  | desk, .randomize => .now (r.solve desk.sent fun _ => True)
  | _, .finishItem req => issue req
  | _, .getResponse => .take id
  | _, .edges n => .edges n ()

variable {r : Randomizer} {e : Platform} {m : Moment Op Res}

abbrev handle (r : Randomizer) (e : Platform) : (op : Op) → Moment Op Res → Res op × Moment Op Res :=
  Moment.handle e (client r)

theorem issue_of_legal {req : Packet} (h : req.Legal) : issue req = .send ⟨req, h⟩ () := dif_pos h

theorem items_doWith {c : Packet → Prop} (hc : Satisfiable c) :
    (handle r e (.doWith c) m).2.account.items =
      m.account.items ++ [r.item m.account.items.length hc] := by
  have hclient : client r (m.desk e) (.doWith c) =
      .send (r.item m.account.items.length hc) () := issue_of_legal (r.sound _ c hc).1
  rw [handle, Moment.handle_of_send hclient]
  rfl

theorem items_finishItem {req : Packet} (h : req.Legal) :
    (handle r e (.finishItem req) m).2.account.items = m.account.items ++ [⟨req, h⟩] := by
  have hclient : client r (m.desk e) (.finishItem req) = .send ⟨req, h⟩ () := issue_of_legal h
  rw [handle, Moment.handle_of_send hclient]
  rfl

end MasterSeq

end UbusVip
