import UbusVip.Guarantees.BusOwnership

namespace UbusVip

open FourState

namespace Monitor

def Loc.Sized : Loc → Prop
  | .top => True
  | .waitHigh _ req _ => 0 < req.size
  | .waitLow _ req _ => 0 < req.size
  | .beat _ req i => i < req.size

section Sized

variable {after : Branch → Bus → Act} {br : Branch} {req : Packet}

theorem sized_waitLow (h : 0 < req.size) (n : Nat) (p : Bus) : (waitLow after br req n p).loc.Sized := by
  rw [waitLow]
  split
  · rw [samples_more]
    · exact h
    · exact h
  · exact h

theorem sized_waitHigh (h : 0 < req.size) (n : Nat) (p : Bus) :
    (waitHigh after br req n p).loc.Sized := by
  rw [waitHigh]
  split
  · exact h
  · exact sized_waitLow h n p

theorem waitLow_after (h : 0 < req.size) (after' : Branch → Bus → Act) (n : Nat) (p : Bus) :
    waitLow after br req n p = waitLow after' br req n p := by
  unfold waitLow
  split
  · rw [samples_more, samples_more]
    · exact h
    · exact h
  · rfl

theorem waitHigh_after (h : 0 < req.size) (after' : Branch → Bus → Act) (n : Nat) (p : Bus) :
    waitHigh after br req n p = waitHigh after' br req n p := by
  unfold waitHigh
  split
  · rfl
  · exact waitLow_after h after' n p

theorem settle_after {l : Loc} (h : l.Sized) (after' : Branch → Bus → Act) (p : Bus) :
    settle after p l = settle after' p l := by
  cases l with
  | waitLow br req n => exact waitLow_after h after' n p
  | top | waitHigh br req n | beat br req i => rfl

theorem settle_congr {l : Loc} (h : l.Sized) {p q : Bus} (hw : p.ubusWait = q.ubusWait) :
    settle after p l = settle after q l := by
  cases l with
  | waitLow br req n =>
    simp only [settle, waitLow, hw]
    split
    · rw [samples_more, samples_more]
      · exact h
      · exact h
    · rfl
  | top | waitHigh br req n | beat br req i => rfl

theorem sized_settle {l : Loc} (h : l.Sized) (p : Bus) : (settle after p l).loc.Sized := by
  cases l with
  | waitLow br req n => exact sized_waitLow h n p
  | top | waitHigh br req n | beat br req i => exact h

end Sized

structure Process where
  edge : Bus → Loc → Act
  settle : Bus → Loc → Act

namespace Process

-- pins k are the values between edge k - 1 and edge k, at which they are sampled
def loc (m : Process) (pins : Nat → Bus) : Nat → Loc
  | 0 => .top
  | k + 1 => (m.settle (pins (k + 1)) (m.edge (pins k) (m.loc pins k)).loc).loc

def published (m : Process) (pins : Nat → Bus) (k : Nat) : List Packet :=
  let act := m.edge (pins k) (m.loc pins k)
  act.collected ++ (m.settle (pins (k + 1)) act.loc).collected

end Process

end Monitor

def masterMonitor : Monitor.Process := ⟨MasterMonitor.edge, MasterMonitor.settle⟩

def slaveMonitor : Monitor.Process := ⟨SlaveMonitor.edge, SlaveMonitor.settle⟩

structure LegalPins (p : Bus) : Prop where
  exclusive : ¬(p.ubusRead = .one ∧ p.ubusWrite = .one)
  size : p.command → ∃ c : BitVec 3, c.toNat ≤ 3 ∧ p.ubusSize = .known c

structure Guarantee (pins : Nat → Bus) : Prop where
  legal : ∀ k, LegalPins (pins k)
  readClose : ∀ k req i, masterMonitor.loc pins k = .beat .read req i → i + 1 = req.size →
    ¬(pins k).command

namespace LegalPins

variable {p : Bus}

theorem caseSize (h : LegalPins p) (hc : p.command) (d : Nat) :
    Monitor.caseSize d p.ubusSize = Monitor.caseSize 0 p.ubusSize ∧
      0 < Monitor.caseSize d p.ubusSize := by
  obtain ⟨c, hle, hsize⟩ := h.size hc
  have hcases : ∀ c : BitVec 3, c.toNat ≤ 3 → c = 0 ∨ c = 1 ∨ c = 2 ∨ c = 3 := by decide
  rw [hsize]
  rcases hcases c hle with rfl | rfl | rfl | rfl <;> simp [Monitor.caseSize]

theorem sized_ifWrite (h : LegalPins p) : (MasterMonitor.ifWrite p).loc.Sized := by
  rw [MasterMonitor.ifWrite]
  split
  · exact Monitor.sized_waitHigh (h.caseSize (.inr ‹_›) _).2 0 p
  · trivial

theorem sized_top (h : LegalPins p) : (MasterMonitor.top p).loc.Sized := by
  rw [MasterMonitor.top]
  split
  · exact Monitor.sized_waitHigh (h.caseSize (.inl ‹_›) _).2 0 p
  · exact h.sized_ifWrite

theorem sized_after (h : LegalPins p) (br : Monitor.Branch) :
    (MasterMonitor.after br p).loc.Sized := by
  cases br with
  | read => exact h.sized_ifWrite
  | write => trivial

theorem sized_edge (h : LegalPins p) {l : Monitor.Loc} (hl : l.Sized) :
    (MasterMonitor.edge p l).loc.Sized := by
  cases l with
  | top => exact h.sized_top
  | waitHigh br req n => exact Monitor.sized_waitHigh hl (n + 1) p
  | waitLow br req n => exact hl
  | beat br req i =>
    simp only [MasterMonitor.edge, Monitor.edge, Monitor.samples]
    split
    · assumption
    · exact h.sized_after br

theorem top_agrees (h : LegalPins p) :
    (MasterMonitor.top p).loc = (SlaveMonitor.top p).loc ∧
      (MasterMonitor.top p).collected = (SlaveMonitor.top p).collected := by
  by_cases hr : p.ubusRead = .one
  · have hsize := (h.caseSize (.inl hr) 0).2
    have hreq : (Monitor.request (Monitor.caseSize 0 p.ubusSize) p).read = true := by
      simp [Monitor.request, hr]
    rw [MasterMonitor.top, if_pos hr, SlaveMonitor.top, if_pos (.inl hr),
      Monitor.waitHigh_after hsize SlaveMonitor.after]
    simp only [hreq, if_true]
    exact ⟨rfl, rfl⟩
  · by_cases hw : p.ubusWrite = .one
    · obtain ⟨hcase, hsize⟩ := h.caseSize (.inr hw) p.ubusSize.toBits.toNat
      have hread : (Monitor.request (Monitor.caseSize 0 p.ubusSize) p).read = false := by
        simp [Monitor.request, hr]
      have hwrite : (Monitor.request (Monitor.caseSize 0 p.ubusSize) p).write = true := by
        simp [Monitor.request, hw]
      rw [MasterMonitor.top, if_neg hr, MasterMonitor.ifWrite, if_pos hw,
        Monitor.waitHigh_after hsize SlaveMonitor.after, hcase, SlaveMonitor.top, if_pos (.inr hw)]
      simp only [hread, hwrite, Bool.false_eq_true, if_false, if_true]
      exact ⟨rfl, rfl⟩
    · rw [(stay_top_of_quiet hr hw).1, (stay_top_of_quiet hr hw).2]
      exact ⟨rfl, rfl⟩

theorem edge_agrees (h : LegalPins p) {l : Monitor.Loc} (hl : l.Sized)
    (hclose : ∀ req i, l = .beat .read req i → i + 1 = req.size → ¬p.command) :
    (MasterMonitor.edge p l).loc = (SlaveMonitor.edge p l).loc ∧
      (MasterMonitor.edge p l).collected = (SlaveMonitor.edge p l).collected := by
  cases l with
  | top => exact h.top_agrees
  | waitHigh br req n =>
    have hreq : MasterMonitor.edge p (.waitHigh br req n) = SlaveMonitor.edge p (.waitHigh br req n) :=
      Monitor.waitHigh_after hl SlaveMonitor.after (n + 1) p
    rw [hreq]
    exact ⟨rfl, rfl⟩
  | waitLow br req n => exact ⟨rfl, rfl⟩
  | beat br req i =>
    simp only [MasterMonitor.edge, SlaveMonitor.edge, Monitor.edge, Monitor.samples]
    split
    · exact ⟨rfl, rfl⟩
    · rename_i hlast
      have hafter : MasterMonitor.after br p = Monitor.stay .top := by
        cases br with
        | write => rfl
        | read =>
          have hlt : i < req.size := hl
          have hcmd := hclose req i rfl (by simp only [not_lt] at hlast; omega)
          exact if_neg fun hw => hcmd (.inr hw)
      rw [hafter]
      exact ⟨rfl, rfl⟩

end LegalPins

theorem masterMonitor_sized {pins : Nat → Bus} (h : ∀ k, LegalPins (pins k)) (k : Nat) :
    (masterMonitor.loc pins k).Sized := by
  induction k with
  | zero => trivial
  | succ k ih => exact Monitor.sized_settle ((h k).sized_edge ih) _

theorem loc_agrees {pins : Nat → Bus} (h : Guarantee pins) (k : Nat) :
    masterMonitor.loc pins k = slaveMonitor.loc pins k := by
  induction k with
  | zero => rfl
  | succ k ih =>
    have hsized := masterMonitor_sized h.legal k
    have hedge := ((h.legal k).edge_agrees hsized (h.readClose k)).1
    change (Monitor.settle _ _ (MasterMonitor.edge _ (masterMonitor.loc pins k)).loc).loc =
      (Monitor.settle _ _ (SlaveMonitor.edge _ (slaveMonitor.loc pins k)).loc).loc
    rw [← ih, ← hedge, Monitor.settle_after ((h.legal k).sized_edge hsized) SlaveMonitor.after]

section ClosedSystem

variable {cov : CoveredBins} {tl : Timeline} {s : Testbench}

theorem sizeCode_le (n : Nat) : (MasterDriver.sizeCode n).toNat ≤ 3 := by
  rw [MasterDriver.sizeCode]
  repeat' split
  all_goals decide

theorem Follows.legalPins (h : Follows cov tl s) : LegalPins s.bus := by
  refine ⟨h.owned.exclusive, ?_⟩
  intro hc
  obtain ⟨past, phase, mem⟩ := tl
  have hpins := h.pins
  cases phase with
  | idle late => exact absurd hc hpins.1.not_command
  | command late tr => exact absurd hc hpins.1.not_command
  | address tr => exact ⟨_, sizeCode_le _, Commanded.size hpins⟩
  | wait t i => exact absurd hc (Carrying.not_command hpins)
  | beat t i => exact absurd hc hpins.1.not_command
  | tail t hr => exact absurd hc hpins.1.not_command

theorem Follows.command_top (h : Follows cov tl s) (hc : s.bus.command) : s.masterMonitor = .top := by
  obtain ⟨past, phase, mem⟩ := tl
  have hpins := h.pins
  cases phase with
  | idle late => exact absurd hc hpins.1.not_command
  | command late tr => exact absurd hc hpins.1.not_command
  | address tr => exact h.masterMonitor
  | wait t i => exact absurd hc (Carrying.not_command hpins)
  | beat t i => exact absurd hc hpins.1.not_command
  | tail t hr => exact absurd hc hpins.1.not_command

theorem MasterDriver.settle_wait (p b : Bus) (l : MasterDriver.Loc) :
    ((MasterDriver.settle p l).nba b).ubusWait = b.ubusWait := by
  cases l with
  | waitLow tr =>
    simp only [MasterDriver.settle, MasterDriver.waitLow, MasterDriver.beats]
    repeat' split
    · rw [MasterDriver.writeBeats]; split <;> rfl
    · rw [MasterDriver.readBeats]; split <;> rfl
    · rfl
  | getNextItem | command tr | address tr | beat tr i | tail tr => rfl

theorem Testbench.accept_pins (offer : Option Item) (s : Testbench) :
    (s.accept offer).bus = s.bus ∧ (s.accept offer).masterMonitor = s.masterMonitor := by
  rcases s.accept_cases offer with h | ⟨tr, -, h⟩ <;> rw [h] <;> exact ⟨rfl, rfl⟩

theorem run_masterMonitor (env : Env) (k : Nat) :
    masterMonitor.loc (fun e => (Testbench.run env e).bus) k =
      (Testbench.run env k).masterMonitor := by
  induction k with
  | zero => rfl
  | succ k ih =>
    let s := Testbench.run env k
    let s' := Testbench.active env.draw (env.slaveFirst k) s
    obtain ⟨hbus, hmon⟩ := Testbench.accept_pins (env.offer k) (s'.settle (env.slaveFirst k))
    have hsized : (MasterMonitor.edge s.bus s.masterMonitor).loc.Sized := by
      refine (run_follows env k).legalPins.sized_edge ?_
      rw [← ih]
      exact masterMonitor_sized (fun e => (run_follows env e).legalPins) k
    have hwait : (Testbench.run env (k + 1)).bus.ubusWait = s'.bus.ubusWait := by
      change ((s'.settle (env.slaveFirst k)).accept (env.offer k)).bus.ubusWait = _
      rw [hbus]
      exact MasterDriver.settle_wait _ _ _
    change (Monitor.settle _ _ (MasterMonitor.edge s.bus (masterMonitor.loc _ k)).loc).loc =
      ((s'.settle (env.slaveFirst k)).accept (env.offer k)).masterMonitor
    rw [hmon, ih, Monitor.settle_congr hsized hwait]
    rfl

theorem run_guarantee (env : Env) : Guarantee fun k => (Testbench.run env k).bus where
  legal k := (run_follows env k).legalPins
  readClose k req i hloc _ hc := by
    rw [run_masterMonitor, (run_follows env k).command_top hc] at hloc
    cases hloc

end ClosedSystem

theorem monitors_agree {pins : Nat → Bus} (h : Guarantee pins) (k : Nat) :
    masterMonitor.published pins k = slaveMonitor.published pins k := by
  have hsized := masterMonitor_sized h.legal k
  obtain ⟨hloc, hcol⟩ := (h.legal k).edge_agrees hsized (h.readClose k)
  change (MasterMonitor.edge _ (masterMonitor.loc pins k)).collected ++
      (Monitor.settle _ _ (MasterMonitor.edge _ (masterMonitor.loc pins k)).loc).collected =
    (SlaveMonitor.edge _ (slaveMonitor.loc pins k)).collected ++
      (Monitor.settle _ _ (SlaveMonitor.edge _ (slaveMonitor.loc pins k)).loc).collected
  rw [← loc_agrees h, ← hloc, ← hcol,
    Monitor.settle_after ((h.legal k).sized_edge hsized) SlaveMonitor.after]

theorem monitors_agree_writeThenRead :
    let pins := fun k => (Testbench.run .writeThenRead k).bus
    (masterMonitor.published pins 5).length = 1 ∧
      masterMonitor.published pins 5 = slaveMonitor.published pins 5 :=
  ⟨by decide, monitors_agree (run_guarantee .writeThenRead) 5⟩

end UbusVip
