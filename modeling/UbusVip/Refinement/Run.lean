import UbusVip.Refinement.Step
import UbusVip.Schedule

namespace UbusVip

open FourState
open SlaveSequence (Draw Mem respond)

variable {cov : CoveredBins} {s : Testbench} {past : List Transfer} {mem : Mem}
  {slaveFirst : Bool} {draw : Nat → Draw}

theorem shows_settle {v : View} {m : MasterDriver.Loc} {l : Monitor.Loc} {pins : Bus → Prop}
    (h : Shows cov v s) (slaveFirst : Bool)
    (hloc : (MasterDriver.settle s.bus v.master).loc = m)
    (hdone : (MasterDriver.settle s.bus v.master).itemDone = none)
    (hmon : ∀ after, Monitor.settle after s.bus v.monitor = Monitor.stay l)
    (hpins : pins ((MasterDriver.settle s.bus v.master).nba s.bus)) :
    Shows cov { v with master := m, monitor := l, pins := pins } (Testbench.settle slaveFirst s) := by
  have hmm : MasterMonitor.settle s.bus s.masterMonitor = Monitor.stay l := by
    rw [h.masterMonitor]; exact hmon _
  have hsm : SlaveMonitor.settle s.bus s.slaveMonitor = Monitor.stay l := by
    rw [h.slaveMonitor]; exact hmon _
  rw [← h.master] at hloc hdone hpins
  have hcm : (MasterMonitor.settle s.bus s.masterMonitor).collected = [] := by rw [hmm]; rfl
  have hcs : (SlaveMonitor.settle s.bus s.slaveMonitor).collected = [] := by rw [hsm]; rfl
  have hreq : (SlaveMonitor.settle s.bus s.slaveMonitor).requests = [] := by rw [hsm]; rfl
  have hpub := (h.published.collect hcm hcs (.inl rfl) slaveFirst).drive
    (MasterDriver.settle s.bus s.masterDriver)
  rw [List.append_nil] at hpub
  constructor
  · exact hloc
  · exact congrArg Monitor.Act.loc hmm
  · exact congrArg Monitor.Act.loc hsm
  · exact h.slaveDriver
  · exact h.sequence
  · exact h.mem
  · exact hpins
  · exact h.driven
  · change s.returned ++ (MasterDriver.settle s.bus s.masterDriver).itemDone.toList = _
    rw [hdone]
    exact (List.append_nil _).trans h.returned
  · refine ⟨?_, ?_, h.served.responses⟩
    · simp [Testbench.settle, Testbench.drive, Testbench.collect, hreq, h.served.fifo]
    · simp [Testbench.settle, Testbench.drive, Testbench.collect, hreq, h.served.requests]
  · exact hpub

theorem settle_lateMonitor (b : Bus) (late : Option Transfer) (after : Monitor.Branch → Bus → Monitor.Act) :
    Monitor.settle after b (Timeline.lateMonitor past late) =
      Monitor.stay (Timeline.lateMonitor past late) := by
  unfold Timeline.lateMonitor
  cases late with
  | none => rfl
  | some t => cases past.isEmpty <;> rfl

theorem settle_beatMonitor (b : Bus) (t : Transfer) (i : Nat)
    (after : Monitor.Branch → Bus → Monitor.Act) :
    Monitor.settle after b (Timeline.beatMonitor past t i) =
      Monitor.stay (Timeline.beatMonitor past t i) := by
  rw [Timeline.beatMonitor]
  split
  · rfl
  · split <;> rfl

theorem settle_waitMonitor_one {b : Bus} (hw : b.ubusWait = .one) (t : Transfer) (n : Nat)
    (after : Monitor.Branch → Bus → Monitor.Act) :
    Monitor.settle after b (Timeline.waitMonitor past t n) =
      Monitor.stay (Timeline.waitMonitor past t n) := by
  rw [Timeline.waitMonitor]
  split
  · exact settle_opening_one hw false _ _
  · rfl

theorem settle_waitMonitor_zero {b : Bus} (hw : b.ubusWait = .zero) (t : Transfer)
    (after : Monitor.Branch → Bus → Monitor.Act) :
    Monitor.settle after b (Timeline.waitMonitor past t t.waits) =
      Monitor.stay (Timeline.beatMonitor past t 0) := by
  simp only [Timeline.waitMonitor, Timeline.beatMonitor]
  split
  · exact settle_waitLow_zero hw t
  · rfl

theorem settle_follows {tl : Timeline} (h : Follows cov tl s) :
    Follows cov tl (Testbench.settle slaveFirst s) := by
  obtain ⟨past, phase, mem⟩ := tl
  cases phase with
  | idle late => exact shows_settle h slaveFirst rfl rfl (settle_lateMonitor s.bus late) h.pins
  | command late tr => exact shows_settle h slaveFirst rfl rfl (settle_lateMonitor s.bus late) h.pins
  | address tr => exact shows_settle h slaveFirst rfl rfl (fun _ => rfl) h.pins
  | wait t i =>
    have hc : Carrying t 0 .one s.bus := h.pins
    have hmd : MasterDriver.settle s.bus (.waitLow t.item.val) = ⟨.waitLow t.item.val, id, none⟩ := by
      rw [MasterDriver.settle, MasterDriver.waitLow, if_neg (by rw [hc.wait]; decide)]
    refine shows_settle h slaveFirst (congrArg MasterDriver.Act.loc hmd)
      (congrArg MasterDriver.Act.itemDone hmd) (settle_waitMonitor_one hc.wait t i) ?_
    change Carrying t 0 .one ((MasterDriver.settle s.bus (.waitLow t.item.val)).nba s.bus)
    rw [hmd]
    exact hc
  | beat t i => exact shows_settle h slaveFirst rfl rfl (settle_beatMonitor s.bus t i) h.pins
  | tail t hr => exact shows_settle h slaveFirst rfl rfl (settle_lateMonitor s.bus (some t)) h.pins

theorem settle_answered {t : Transfer} (h : Shows cov (Timeline.answered past t mem) s) :
    Follows cov ⟨past, Timeline.firstBeat t, mem⟩ (Testbench.settle slaveFirst s) := by
  have hc : Carrying t 0 .zero s.bus := h.pins
  obtain ⟨hloc, hdone, hpins⟩ := master_settle t hc
  exact shows_settle h slaveFirst hloc hdone (settle_waitMonitor_zero hc.wait t) hpins

theorem edge_follows {tl : Timeline} (h : Follows cov tl s) :
    Follows cov (tl.advance draw) (Testbench.edge draw slaveFirst s) := by
  obtain ⟨past, phase, mem⟩ := tl
  cases phase with
  | idle late => exact settle_follows (active_idle draw slaveFirst h)
  | command late tr => exact settle_follows (active_command draw slaveFirst h)
  | address tr =>
    have ha := active_request draw slaveFirst h
    by_cases hw : 0 < (Transfer.serve mem tr (draw past.length)).waits
    · simp only [dif_pos hw] at ha
      simp only [Timeline.advance, dif_pos hw]
      exact settle_follows ha
    · simp only [dif_neg hw] at ha
      simp only [Timeline.advance, dif_neg hw]
      exact settle_answered ha
  | wait t i =>
    have ha := active_wait draw slaveFirst h
    by_cases hi : i + 1 < t.waits
    · simp only [dif_pos hi] at ha
      simp only [Timeline.advance, dif_pos hi]
      exact settle_follows ha
    · simp only [dif_neg hi] at ha
      simp only [Timeline.advance, dif_neg hi]
      exact settle_answered ha
  | beat t i =>
    by_cases hi : i + 1 < t.size
    · simp only [Timeline.advance, dif_pos hi]
      exact settle_follows (active_beat draw slaveFirst hi h)
    · have hlast : i.val = t.size - 1 := by omega
      cases hr : t.read with
      | true =>
        simp only [Timeline.advance, dif_neg hi, hr, dif_pos]
        exact settle_follows (active_lastRead draw slaveFirst hlast hr h)
      | false =>
        simp only [Timeline.advance, dif_neg hi, hr, Bool.false_eq_true, dite_false]
        exact settle_follows (active_lastWrite draw slaveFirst hlast hr h)
  | tail t hr => exact settle_follows (active_tail draw slaveFirst h)

theorem accept_follows {tl : Timeline} (h : Follows cov tl s) (offer : Option Item) :
    Follows cov (tl.accept offer) (s.accept offer) := by
  obtain ⟨past, phase, mem⟩ := tl
  have hm := h.master
  cases phase with
  | idle late =>
    cases offer with
    | none => simpa [Timeline.accept, Testbench.accept] using h
    | some tr =>
      replace hm : s.masterDriver = .getNextItem := hm
      have hs : s.accept (some tr) =
          { s with masterDriver := .command tr.val, driven := s.driven ++ [tr] } := by
        simp only [Testbench.accept, hm]
      rw [hs]
      refine ⟨rfl, h.masterMonitor, h.slaveMonitor, h.slaveDriver, h.sequence, h.mem, h.pins, ?_,
        h.returned, ⟨h.served.1, h.served.2, h.served.3⟩,
        ⟨h.published.1, h.published.2, h.published.3, h.published.4⟩⟩
      change s.driven ++ [tr] = _
      rw [h.driven]
      simp [Timeline.view, Timeline.items, Timeline.opened, Timeline.pending, Timeline.accept]
  | command late tr | address tr | wait t i | beat t i | tail t hr =>
    have hs : s.accept offer = s := by
      simp only [Timeline.view, Timeline.masterLoc] at hm
      simp only [Testbench.accept, hm]
    rw [hs]
    exact h

theorem step_follows (env : Env) (k : Nat) (tl : Timeline) (s : Testbench) (h : Follows cov tl s) :
    Follows cov (tl.step env k) (s.step env k) :=
  accept_follows (edge_follows h) (env.offer k)

theorem run_follows (env : Env) (k : Nat) :
    Follows UbusCoverage.init (Timeline.run env k) (Testbench.run env k) :=
  Clocked.run_simulates (follows_init _) (step_follows env) k

theorem Follows.getNextItem_iff {tl : Timeline} (h : Follows cov tl s) (draw : Nat → Draw) :
    s.masterDriver = .getNextItem ↔ ¬0 < tl.busy draw := by
  constructor
  · intro hm
    obtain ⟨past, phase, mem⟩ := tl
    have hloc := h.master.symm.trans hm
    cases phase with
    | idle late => exact lt_irrefl 0
    | command late tr | address tr | wait t i | beat t i | tail t hr => cases hloc
  · intro hb
    obtain ⟨late, hphase⟩ := Timeline.idle_of_not_busy hb
    rw [h.master, Timeline.view]
    simp only [Timeline.masterLoc, hphase]

end UbusVip
